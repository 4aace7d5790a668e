import Mathlib.Data.List.Lex
import Mathlib.Data.String.Basic
import Mathlib.Tactic

set_option autoImplicit false

/-! # Instants and their texts

An instant of UTC is a date of the Gregorian calendar with a time of day, and may lie in a leap
second. `toRfc3339` writes it as `2024-02-29T23:59:60.005+00:00`, with as few groups of three digits
after the point as are exact, and without the point if there is none.

Texts of different lengths are compared, and still the order of the texts is that of the instants
(`toRfc3339_lt_iff`): numbers of fixed width are ordered as their texts are (`pad_lt_iff`), and a
fraction that ends early is followed by a `+`, which is before the point and before all digits
(`fraction_lt_iff`). Leap seconds apart, it is the order of the times (`lt_iff_nanoseconds_lt`).
-/

namespace Rfc3339

/-! ## Numbers of fixed width -/

/-- The last `w` decimal digits. -/
def pad : Nat → Nat → List Char
  | 0, _ => []
  | w + 1, n => Nat.digitChar (n / 10 ^ w) :: pad w (n % 10 ^ w)

/-- Two digits of some base are compared from the first on. -/
theorem lex_lt_iff {b q r q' r' : Nat} (hr : r < b) (hr' : r' < b) :
    q * b + r < q' * b + r' ↔ q < q' ∨ q = q' ∧ r < r' := by
  constructor
  · intro h
    rcases Nat.lt_trichotomy q q' with hq | hq | hq
    · exact Or.inl hq
    · subst hq
      exact Or.inr ⟨rfl, by omega⟩
    · have := Nat.mul_le_mul_right b (Nat.succ_le_of_lt hq)
      rw [Nat.succ_mul] at this
      omega
  · rintro (hq | ⟨rfl, h⟩)
    · have := Nat.mul_le_mul_right b (Nat.succ_le_of_lt hq)
      rw [Nat.succ_mul] at this
      omega
    · omega

theorem digitChar_lt_iff : ∀ d < 10, ∀ e < 10,
    (Nat.digitChar d < Nat.digitChar e ↔ d < e) ∧
    (Nat.digitChar d = Nat.digitChar e ↔ d = e) := by
  decide

/-- Digits come after the plus sign and the point. -/
theorem plus_lt_digitChar : ∀ d < 10, '+' < Nat.digitChar d ∧ '.' < Nat.digitChar d := by
  decide

/-- **Numbers of fixed width** are ordered as their texts are, whatever follows them. -/
theorem pad_lt_iff : ∀ (w : Nat) {m n : Nat} (xs ys : List Char), m < 10 ^ w → n < 10 ^ w →
    (pad w m ++ xs < pad w n ++ ys ↔ m < n ∨ m = n ∧ xs < ys) := by
  intro w
  induction w with
  | zero =>
      intro m n xs ys hm hn
      rw [Nat.pow_zero] at hm hn
      have hmn : m = n := by omega
      rw [hmn]
      simp [pad]
  | succ w ih =>
      intro m n xs ys hm hn
      have hpos : 0 < 10 ^ w := Nat.pow_pos (by decide)
      have hm' : m / 10 ^ w < 10 := by
        rw [Nat.div_lt_iff_lt_mul hpos]
        rwa [Nat.pow_succ, Nat.mul_comm] at hm
      have hn' : n / 10 ^ w < 10 := by
        rw [Nat.div_lt_iff_lt_mul hpos]
        rwa [Nat.pow_succ, Nat.mul_comm] at hn
      have hmr := Nat.mod_lt m hpos
      have hnr := Nat.mod_lt n hpos
      obtain ⟨hlt, heq⟩ := digitChar_lt_iff _ hm' _ hn'
      have hsplit :=
        @lex_lt_iff (10 ^ w) (m / 10 ^ w) (m % 10 ^ w) (n / 10 ^ w) (n % 10 ^ w) hmr hnr
      have hdiv : ∀ k, k / 10 ^ w * 10 ^ w + k % 10 ^ w = k := fun k => Nat.div_add_mod' k _
      rw [hdiv, hdiv] at hsplit
      rw [pad, pad, List.cons_append, List.cons_append, List.cons_lt_cons_iff, hlt, heq,
        ih xs ys hmr hnr, hsplit]
      constructor
      · rintro (h | ⟨h, h' | ⟨h', hxs⟩⟩)
        · exact Or.inl (Or.inl h)
        · exact Or.inl (Or.inr ⟨h, h'⟩)
        · refine Or.inr ⟨?_, hxs⟩
          rw [← hdiv m, ← hdiv n, h, h']
      · rintro ((h | ⟨h, h'⟩) | ⟨rfl, hxs⟩)
        · exact Or.inl h
        · exact Or.inr ⟨h, Or.inl h'⟩
        · exact Or.inr ⟨rfl, Or.inr ⟨rfl, hxs⟩⟩

/-! ## Fractions -/

/-- Groups of three digits, without those at the end that are zero. -/
def groups : List Nat → List Char
  | [] => []
  | g :: gs => if g = 0 ∧ ∀ h ∈ gs, h = 0 then [] else pad 3 g ++ groups gs

theorem pad_three (g : Nat) : ∃ cs, pad 3 g = Nat.digitChar (g / 100) :: cs := ⟨_, rfl⟩

/-- A list of zeros is the least one of its length. -/
theorem zeros_lt_iff : ∀ {xs ys : List Nat}, xs.length = ys.length → (∀ x ∈ xs, x = 0) →
    (xs < ys ↔ ¬ ∀ y ∈ ys, y = 0) := by
  intro xs
  induction xs with
  | nil =>
      intro ys hlen _
      rw [List.eq_nil_of_length_eq_zero hlen.symm]
      exact iff_of_false (List.lt_irrefl _) (fun h => h (by simp))
  | cons x xs ih =>
      intro ys hlen hxs
      cases ys with
      | nil => cases hlen
      | cons y ys =>
          have hx := hxs x List.mem_cons_self
          rw [List.cons_lt_cons_iff, List.forall_mem_cons, hx,
            ih (Nat.succ.inj hlen) fun z hz => hxs z (List.mem_cons_of_mem _ hz)]
          by_cases hy : y = 0
          · simp [hy]
          · simp [hy, Nat.pos_of_ne_zero hy]

/-- Where one fraction ends the other goes on with a digit, which is after the plus sign. -/
theorem groups_lt_iff (t : List Char) : ∀ (gs gs' : List Nat), gs.length = gs'.length →
    (∀ g ∈ gs, g < 1000) → (∀ g ∈ gs', g < 1000) →
    (groups gs ++ '+' :: t < groups gs' ++ '+' :: t ↔ gs < gs') := by
  intro gs
  induction gs with
  | nil =>
      intro gs' hlen _ _
      rw [List.eq_nil_of_length_eq_zero hlen.symm]
      exact iff_of_false (List.lt_irrefl _) (List.lt_irrefl _)
  | cons g gs ih =>
      intro gs' hlen hgs hgs'
      cases gs' with
      | nil => cases hlen
      | cons g' gs' =>
          have hlen' : gs.length = gs'.length := Nat.succ.inj hlen
          have hg := hgs g List.mem_cons_self
          have hg' := hgs' g' List.mem_cons_self
          have hrest := ih gs' hlen' (fun h hh => hgs h (List.mem_cons_of_mem _ hh))
            (fun h hh => hgs' h (List.mem_cons_of_mem _ hh))
          by_cases hzero : g = 0 ∧ ∀ h ∈ gs, h = 0
          · rw [zeros_lt_iff hlen (by simpa using hzero), groups, if_pos hzero, List.nil_append,
              List.forall_mem_cons]
            by_cases hzero' : g' = 0 ∧ ∀ h ∈ gs', h = 0
            · rw [groups, if_pos hzero']
              exact iff_of_false (List.lt_irrefl _) (fun h => h hzero')
            · rw [groups, if_neg hzero']
              refine iff_of_true ?_ hzero'
              obtain ⟨cs, hcs⟩ := pad_three g'
              rw [hcs, List.cons_append, List.cons_append, List.cons_lt_cons_iff]
              exact Or.inl (plus_lt_digitChar _ (by omega)).1
          · by_cases hzero' : g' = 0 ∧ ∀ h ∈ gs', h = 0
            · refine iff_of_false ?_ ?_
              · obtain ⟨cs, hcs⟩ := pad_three g
                rw [groups, groups, if_neg hzero, if_pos hzero', hcs, List.nil_append,
                  List.cons_append, List.cons_append]
                refine List.lt_asymm ?_
                rw [List.cons_lt_cons_iff]
                exact Or.inl (plus_lt_digitChar _ (by omega)).1
              · intro hlt
                have hgt := (zeros_lt_iff hlen.symm (by simpa using hzero')).mpr
                  (by rw [List.forall_mem_cons]; exact hzero)
                exact List.lt_asymm hlt hgt
            · rw [groups, groups, if_neg hzero, if_neg hzero', List.append_assoc,
                List.append_assoc, pad_lt_iff 3 _ _ hg hg', hrest, List.cons_lt_cons_iff]

/-- The fraction of a second, with the fewest of 0, 3, 6 and 9 digits. -/
def fraction (nanos : Nat) : List Char :=
  if nanos = 0 then []
  else if nanos % 1000000 = 0 then '.' :: pad 3 (nanos / 1000000)
  else if nanos % 1000 = 0 then '.' :: pad 6 (nanos / 1000)
  else '.' :: pad 9 nanos

/-- The three groups of a fraction. -/
def fractionGroups (nanos : Nat) : List Nat :=
  [nanos / 1000000, nanos / 1000 % 1000, nanos % 1000]

/-- A number of fixed width is written group by group. -/
theorem pad_add (w : Nat) : ∀ (v : Nat) {n : Nat}, n < 10 ^ (v + w) →
    pad (v + w) n = pad v (n / 10 ^ w) ++ pad w (n % 10 ^ w) := by
  intro v
  induction v with
  | zero =>
      intro n hn
      rw [Nat.zero_add] at hn ⊢
      rw [Nat.mod_eq_of_lt hn]
      rfl
  | succ v ih =>
      intro n hn
      have hpow : 10 ^ (v + w) = 10 ^ w * 10 ^ v := by rw [Nat.pow_add, Nat.mul_comm]
      have hrest : n % 10 ^ (v + w) < 10 ^ (v + w) := Nat.mod_lt n (Nat.pow_pos (by decide))
      rw [Nat.succ_add, pad, ih hrest, pad, List.cons_append, hpow, Nat.mod_mul_right_div_self,
        Nat.div_div_eq_div_mul, Nat.mod_mul_right_mod]

theorem fraction_eq {nanos : Nat} (h : nanos < 10 ^ 9) :
    fraction nanos = if nanos = 0 then [] else '.' :: groups (fractionGroups nanos) := by
  have hnine : pad 9 nanos = pad 3 (nanos / 1000000) ++ (pad 3 (nanos / 1000 % 1000)
      ++ pad 3 (nanos % 1000)) := by
    have hinner : nanos % 10 ^ 6 < 10 ^ (3 + 3) := Nat.mod_lt _ (by decide)
    have hmid : nanos % 1000000 / 1000 = nanos / 1000 % 1000 := by omega
    have hlast : nanos % 1000000 % 1000 = nanos % 1000 := by omega
    rw [show 9 = 3 + 6 from rfl, pad_add 6 3 h, show 6 = 3 + 3 from rfl, pad_add 3 3 hinner]
    simp only [Nat.reducePow, Nat.reduceAdd, hmid, hlast]
  have hsix : pad 6 (nanos / 1000) = pad 3 (nanos / 1000000) ++ pad 3 (nanos / 1000 % 1000) := by
    have hdiv : nanos / 1000 < 10 ^ (3 + 3) := by omega
    have hfirst : nanos / 1000 / 1000 = nanos / 1000000 := by omega
    rw [show 6 = 3 + 3 from rfl, pad_add 3 3 hdiv]
    simp only [Nat.reducePow, hfirst]
  unfold fraction fractionGroups
  simp only [groups, List.mem_cons, List.not_mem_nil, or_false, forall_eq_or_imp, forall_eq,
    false_implies, implies_true, and_true, List.append_nil, hnine, hsix]
  split_ifs <;> first | rfl | omega

/-- **Fractions** are ordered as their texts are, if a plus sign follows. -/
theorem fraction_lt_iff (t : List Char) {m n : Nat} (hm : m < 10 ^ 9) (hn : n < 10 ^ 9) :
    fraction m ++ '+' :: t < fraction n ++ '+' :: t ↔ m < n := by
  have hgroups : ∀ k, k < 10 ^ 9 → ∀ g ∈ fractionGroups k, g < 1000 := by
    intro k hk g hg
    simp only [fractionGroups, List.mem_cons, List.not_mem_nil, or_false] at hg
    omega
  have hlt : fractionGroups m < fractionGroups n ↔ m < n := by
    simp only [fractionGroups, List.cons_lt_cons_iff, List.lt_irrefl, and_false, or_false]
    omega
  rw [fraction_eq hm, fraction_eq hn]
  by_cases hm0 : m = 0
  · by_cases hn0 : n = 0
    · rw [hm0, hn0]
      exact iff_of_false (List.lt_irrefl _) (Nat.lt_irrefl _)
    · rw [if_pos hm0, if_neg hn0, List.nil_append, List.cons_append, List.cons_lt_cons_iff]
      exact iff_of_true (Or.inl (by decide)) (by omega)
  · by_cases hn0 : n = 0
    · rw [if_neg hm0, if_pos hn0, List.nil_append, List.cons_append, List.cons_lt_cons_iff]
      refine iff_of_false ?_ (by omega)
      rintro (h | ⟨h, -⟩)
      · exact absurd h (by decide)
      · exact absurd h (by decide)
    · have hfrac := groups_lt_iff t (fractionGroups m) (fractionGroups n) rfl (hgroups m hm)
        (hgroups n hn)
      rw [if_neg hm0, if_neg hn0, List.cons_append, List.cons_append, List.cons_lt_cons_iff, hfrac,
        hlt]
      simp

/-! ## Dates -/

def isLeapYear (year : Nat) : Bool := year % 4 = 0 ∧ (year % 100 ≠ 0 ∨ year % 400 = 0)

def daysInMonth (year month : Nat) : Nat :=
  match month with
  | 2 => if isLeapYear year then 29 else 28
  | 4 | 6 | 9 | 11 => 30
  | _ => 31

/-- An instant of UTC. The second 60 is a leap second. -/
structure Instant where
  year : Nat
  month : Nat
  day : Nat
  hour : Nat
  minute : Nat
  second : Nat
  nanos : Nat
  year_le : year ≤ 9999
  month_pos : 1 ≤ month
  month_le : month ≤ 12
  day_pos : 1 ≤ day
  day_le : day ≤ daysInMonth year month
  hour_lt : hour < 24
  minute_lt : minute < 60
  second_le : second ≤ 60
  nanos_lt : nanos < 10 ^ 9

namespace Instant

/-- The parts of an instant, the longest first. -/
def fields (i : Instant) : List Nat :=
  [i.year, i.month, i.day, i.hour, i.minute, i.second, i.nanos]

/-- An instant is earlier than another if the first field in which they differ is less. -/
instance : LT Instant := ⟨fun a b => a.fields < b.fields⟩

instance (a b : Instant) : Decidable (a < b) := inferInstanceAs (Decidable (a.fields < b.fields))

theorem lt_def {a b : Instant} : a < b ↔ a.fields < b.fields := Iff.rfl

theorem day_lt (i : Instant) : i.day < 100 := by
  have hmonth : daysInMonth i.year i.month ≤ 31 := by
    unfold daysInMonth
    split
    · split_ifs <;> omega
    all_goals omega
  have := i.day_le
  omega

/-- `to_rfc3339`, as a list of characters. -/
def chars (i : Instant) : List Char :=
  pad 4 i.year ++ '-' :: (pad 2 i.month ++ '-' :: (pad 2 i.day ++ 'T' :: (pad 2 i.hour ++ ':' ::
    (pad 2 i.minute ++ ':' :: (pad 2 i.second ++
      (fraction i.nanos ++ ['+', '0', '0', ':', '0', '0']))))))

def toRfc3339 (i : Instant) : String := String.ofList i.chars

/-- **The order of the texts is that of the instants.** -/
theorem toRfc3339_lt_iff {a b : Instant} : a.toRfc3339 < b.toRfc3339 ↔ a < b := by
  have hyear := fun i : Instant => Nat.lt_of_le_of_lt i.year_le (show 9999 < 10 ^ 4 by decide)
  have hmonth := fun i : Instant => Nat.lt_of_le_of_lt i.month_le (show 12 < 10 ^ 2 by decide)
  have hhour := fun i : Instant => Nat.lt_trans i.hour_lt (show 24 < 10 ^ 2 by decide)
  have hminute := fun i : Instant => Nat.lt_trans i.minute_lt (show 60 < 10 ^ 2 by decide)
  have hsecond := fun i : Instant => Nat.lt_of_le_of_lt i.second_le (show 60 < 10 ^ 2 by decide)
  have hskip : ∀ (c : Char) (xs ys : List Char), c :: xs < c :: ys ↔ xs < ys := by
    intro c xs ys
    rw [List.cons_lt_cons_iff]
    simp
  rw [String.lt_iff_toList_lt, toRfc3339, toRfc3339, String.toList_ofList, String.toList_ofList,
    lt_def, chars, chars, fields, fields,
    pad_lt_iff 4 _ _ (hyear a) (hyear b), hskip,
    pad_lt_iff 2 _ _ (hmonth a) (hmonth b), hskip,
    pad_lt_iff 2 _ _ a.day_lt b.day_lt, hskip,
    pad_lt_iff 2 _ _ (hhour a) (hhour b), hskip,
    pad_lt_iff 2 _ _ (hminute a) (hminute b), hskip,
    pad_lt_iff 2 _ _ (hsecond a) (hsecond b), fraction_lt_iff _ a.nanos_lt b.nanos_lt]
  simp only [List.cons_lt_cons_iff, List.lt_irrefl, and_false, or_false]

example : toRfc3339 ⟨2024, 2, 29, 23, 59, 60, 5000000, by decide, by decide, by decide, by decide,
    by decide, by decide, by decide, by decide, by decide⟩
      = "2024-02-29T23:59:60.005+00:00" := by decide +kernel

/-! ## Times -/

/-- The days of the year before a month. -/
def daysBeforeMonth (year : Nat) : Nat → Nat
  | 0 => 0
  | month + 1 => daysBeforeMonth year month + if month = 0 then 0 else daysInMonth year month

/-- The days before a year, from the year 0 on. -/
def daysBeforeYear : Nat → Nat
  | 0 => 0
  | year + 1 => daysBeforeYear year + daysBeforeMonth year 13

/-- The days before the instant. -/
def days (i : Instant) : Nat :=
  daysBeforeYear i.year + (daysBeforeMonth i.year i.month + (i.day - 1))

/-- The nanoseconds of the day before the instant. -/
def timeOfDay (i : Instant) : Nat :=
  ((i.hour * 60 + i.minute) * 60 + i.second) * 10 ^ 9 + i.nanos

/-- The nanoseconds since the start of the year 0, leap seconds not counted. -/
def nanoseconds (i : Instant) : Nat := i.days * (86400 * 10 ^ 9) + i.timeOfDay

theorem daysBeforeMonth_mono (year : Nat) : Monotone (daysBeforeMonth year) :=
  monotone_nat_of_le_succ fun _ => Nat.le_add_right _ _

theorem daysBeforeYear_mono : Monotone daysBeforeYear :=
  monotone_nat_of_le_succ fun _ => Nat.le_add_right _ _

/-- Places in intervals that lie one after the other are compared interval by interval. -/
theorem interval_lt_iff {start : Nat → Nat} (hmono : Monotone start) {m n r r' : Nat}
    (hr : start m + r < start (m + 1)) (hr' : start n + r' < start (n + 1)) :
    start m + r < start n + r' ↔ m < n ∨ m = n ∧ r < r' := by
  rcases Nat.lt_trichotomy m n with h | h | h
  · have := hmono (show m + 1 ≤ n from h)
    exact iff_of_true (by omega) (Or.inl h)
  · subst h
    simp
  · have := hmono (show n + 1 ≤ m from h)
    exact iff_of_false (by omega) (by omega)

/-- The day lies in its month. -/
theorem day_in_month (i : Instant) :
    daysBeforeMonth i.year i.month + (i.day - 1) < daysBeforeMonth i.year (i.month + 1) := by
  have hday := i.day_le
  have hpos := i.day_pos
  have hmonth := i.month_pos
  rw [daysBeforeMonth, if_neg (by omega)]
  omega

/-- The day lies in its year. -/
theorem day_in_year (i : Instant) :
    daysBeforeYear i.year + (daysBeforeMonth i.year i.month + (i.day - 1))
      < daysBeforeYear (i.year + 1) := by
  have hmonth := i.day_in_month
  have hyear := daysBeforeMonth_mono i.year (show i.month + 1 ≤ 13 from Nat.succ_le_succ i.month_le)
  rw [daysBeforeYear]
  omega

theorem days_lt_iff (a b : Instant) : a.days < b.days ↔
    a.year < b.year ∨ a.year = b.year ∧
      (a.month < b.month ∨ a.month = b.month ∧ a.day < b.day) := by
  rw [days, days, interval_lt_iff daysBeforeYear_mono a.day_in_year b.day_in_year]
  refine or_congr_right (and_congr_right fun hyear => ?_)
  have hmonth := a.day_in_month
  have ha := a.day_pos
  have hb := b.day_pos
  rw [hyear] at hmonth ⊢
  rw [interval_lt_iff (daysBeforeMonth_mono b.year) hmonth b.day_in_month]
  omega

theorem days_eq_iff (a b : Instant) :
    a.days = b.days ↔ a.year = b.year ∧ a.month = b.month ∧ a.day = b.day := by
  constructor
  · intro h
    have hlt := (days_lt_iff a b).not.mp (by omega)
    have hgt := (days_lt_iff b a).not.mp (by omega)
    omega
  · rintro ⟨hyear, hmonth, hday⟩
    rw [days, days, hyear, hmonth, hday]

theorem timeOfDay_lt {i : Instant} (h : i.second < 60) : i.timeOfDay < 86400 * 10 ^ 9 := by
  have hhour := i.hour_lt
  have hminute := i.minute_lt
  have hnanos := i.nanos_lt
  rw [timeOfDay]
  omega

/-- **The order of the instants is that of their times**, apart from leap seconds, which have the
times of the seconds after them. -/
theorem lt_iff_nanoseconds_lt {a b : Instant} (ha : a.second < 60) (hb : b.second < 60) :
    a < b ↔ a.nanoseconds < b.nanoseconds := by
  have htime : a.timeOfDay < b.timeOfDay ↔ a.hour < b.hour ∨ a.hour = b.hour ∧
      (a.minute < b.minute ∨ a.minute = b.minute ∧
        (a.second < b.second ∨ a.second = b.second ∧ a.nanos < b.nanos)) := by
    have hminute := a.minute_lt
    have hminute' := b.minute_lt
    rw [timeOfDay, timeOfDay, lex_lt_iff a.nanos_lt b.nanos_lt]
    omega
  rw [nanoseconds, nanoseconds, lex_lt_iff (timeOfDay_lt ha) (timeOfDay_lt hb), days_lt_iff,
    days_eq_iff, htime, lt_def, fields, fields]
  simp only [List.cons_lt_cons_iff, List.lt_irrefl, and_false, or_false]
  simp only [and_or_left, or_assoc, and_assoc]

end Instant

end Rfc3339
