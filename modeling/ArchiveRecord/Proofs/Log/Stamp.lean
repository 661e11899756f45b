/- # Proofs.Log.Stamp -- a time stamp tells its instant, and sorts as a text

A stamp is a row of numerals of fixed widths with marks behind them: the fields of the
date and of the time of day, the larger units first. Three things are read off the
row, one field at a time:

* it has the form of a stamp;
* it is read back as the milliseconds of the instant;
* it sorts as its fields do, and these as the instants.
-/
import ArchiveRecord.Proofs.Log.Calendar
import ArchiveRecord.Proofs.Log.Lines
import ArchiveRecord.Proofs.Text.Numeral
import Mathlib.Data.List.Forall2

namespace ArchiveRecord.Log

/-! ## Rows of numerals -/

/-- Numerals of given widths, each with a mark behind it. -/
def row : List (Nat × Char) → List Nat → List Char
  | (width, mark) :: layout, n :: values => Text.numeral 10 width n ++ mark :: row layout values
  | _, _ => []

/-- **`Fits layout values`** -- each value has no more digits than its place is wide. -/
abbrev Fits (layout : List (Nat × Char)) (values : List Nat) : Prop :=
  List.Forall₂ (fun place n => n < 10 ^ place.1) layout values

section Rows

variable {layout : List (Nat × Char)} {values later : List Nat}

/-- **Rows sort as texts** like their values. -/
theorem row_lt (hvalues : Fits layout values) (hlater : Fits layout later)
    (h : values < later) : List.Lex (· < ·) (row layout values) (row layout later) := by
  induction hvalues generalizing later with
  | nil =>
      cases hlater
      cases h
  | @cons place n layout values hn hvalues ih =>
      cases hlater with
      | @cons _ m _ later hm hlater =>
          cases h with
          | rel hlt =>
              exact Text.lex_append (Text.numeral_lt (by omega) hlt hm) (by simp) _ _
          | cons htail => exact List.Lex.append_left _ (.cons (ih hlater htail)) _

/-! ## The form of a row -/

/-- The form of rows. -/
def rowForm : List (Nat × Char) → List Char
  | [] => []
  | (width, mark) :: layout => List.replicate width '0' ++ mark :: rowForm layout

/-- A mark stands for itself, and a zero for a zero also. -/
theorem hasForm_cons_self (mark : Char) (form text : List Char) :
    hasForm (mark :: form) (mark :: text) = hasForm form text := by
  by_cases h : mark = '0'
  · subst h
    simp [hasForm]
  · rw [hasForm]
    · simp
    · exact h

theorem hasForm_numeral (form text : List Char) (width n : Nat) :
    hasForm (List.replicate width '0' ++ form) (Text.numeral 10 width n ++ text)
      = hasForm form text := by
  induction width generalizing n form text with
  | zero => rfl
  | succ width ih =>
      have hdigit : (Nat.digitChar (n % 10)).isDigit = true := by
        rw [Nat.isDigit_digitChar, decide_eq_true_iff]
        exact Nat.mod_lt n (by decide)
      rw [List.replicate_succ', Text.numeral, List.append_assoc, List.append_assoc, ih]
      simp [hasForm, hdigit]

/-- A row has the form of its layout. -/
theorem hasForm_row (h : values.length = layout.length) :
    hasForm (rowForm layout) (row layout values) = true := by
  induction layout generalizing values with
  | nil =>
      obtain rfl := List.eq_nil_of_length_eq_zero h
      rfl
  | cons place layout ih =>
      obtain ⟨n, values, rfl⟩ := List.exists_cons_of_length_eq_add_one h
      rw [rowForm, row, hasForm_numeral, hasForm_cons_self]
      exact ih (Nat.succ.inj h)

end Rows

/-! ## The row of an instant -/

/-- The places of a stamp. -/
def stampLayout : List (Nat × Char) :=
  [(4, '-'), (2, '-'), (2, 'T'), (2, ':'), (2, ':'), (2, '.'), (3, 'Z')]

/-- The fields of a date and of the milliseconds that have passed of the day. -/
def stampFields (date : Date) (clock : Nat) : List Nat :=
  [date.year.toNat, date.month, date.day, clock / 3600000, clock / 60000 % 60, clock / 1000 % 60,
    clock % 1000]

theorem rowForm_stampLayout : rowForm stampLayout = stampForm := rfl

section Fields

variable {date later : Date} {clock laterClock : Nat}

theorem fits_stampFields (hvalid : date.isValid = true) (hclock : clock < 86400000) :
    Fits stampLayout (stampFields date clock) := by
  obtain ⟨hday, hyear, hlast⟩ := Date.isValid_iff.mp hvalid
  have hmonth := hday.month_le
  have hlength := hday.day_le
  have hlong := monthLength_le date.year date.month
  simp only [Fits, stampLayout, stampFields, List.forall₂_cons, List.Forall₂.nil, and_true]
  omega

/-- **The fields sort as the milliseconds.** -/
theorem stampFields_lt (hvalid : date.isValid = true) (hlater : later.isValid = true)
    (hclock : clock < 86400000) (hlaterClock : laterClock < 86400000)
    (h : date.days * 86400000 + clock < later.days * 86400000 + laterClock) :
    stampFields date clock < stampFields later laterClock := by
  obtain ⟨hday, hyear, -⟩ := Date.isValid_iff.mp hvalid
  obtain ⟨hlaterDay, hlaterYear, -⟩ := Date.isValid_iff.mp hlater
  rcases Int.lt_trichotomy date.days later.days with hdays | hdays | hdays
  · have hbefore := hday.before_of_days_lt hlaterDay hdays
    simp only [Date.Before] at hbefore
    simp only [stampFields, List.cons_lt_cons_iff]
    omega
  · obtain rfl := hday.eq_of_days_eq hlaterDay hdays
    simp only [stampFields, List.cons_lt_cons_iff, List.not_lt_nil, true_and, Nat.lt_irrefl]
    omega
  · omega

/-- A numeral of a fixed width is read back, as the digits that it is made of. -/
theorem number?_digits :
    (∀ n < 100, Text.number? 10 [(n / 10 % 10).digitChar, (n % 10).digitChar] = some n)
      ∧ (∀ n < 1000, Text.number? 10
          [(n / 10 / 10 % 10).digitChar, (n / 10 % 10).digitChar, (n % 10).digitChar] = some n)
      ∧ (∀ n < 10000, Text.number? 10
          [(n / 10 / 10 / 10 % 10).digitChar, (n / 10 / 10 % 10).digitChar,
            (n / 10 % 10).digitChar, (n % 10).digitChar] = some n) := by
  have hread (width n : Nat) (h : n < 10 ^ width) :
      Text.number? 10 (Text.numeral 10 width n) = some n := by
    rw [Text.number?_numeral (by decide) (by decide), Nat.mod_eq_of_lt h]
  exact ⟨hread 2, hread 3, hread 4⟩

/-- **A row of a stamp is read back.** -/
theorem readStamp?_row (hvalid : date.isValid = true) (hclock : clock < 86400000) :
    readStamp? (row stampLayout (stampFields date clock)) = some (date.days * 86400000 + clock) := by
  obtain ⟨hday, hyear, hlast⟩ := Date.isValid_iff.mp hvalid
  have hmonth := hday.month_le
  have hlength := hday.day_le
  have hlong := monthLength_le date.year date.month
  obtain ⟨htwo, hthree, hfour⟩ := number?_digits
  have hdate : (⟨date.year.toNat, date.month, date.day⟩ : Date) = date := by
    rw [Int.toNat_of_nonneg (by omega)]
  simp only [row, stampLayout, stampFields, Text.numeral, List.nil_append, List.cons_append]
  rw [readStamp?, hfour _ (by omega), htwo date.month (by omega), htwo date.day (by omega),
    htwo (clock / 3600000) (by omega), htwo (clock / 60000 % 60) (by omega),
    htwo (clock / 1000 % 60) (by omega), hthree _ (by omega)]
  simp only [Option.bind_eq_bind, Option.bind_some, hdate]
  rw [if_pos ⟨hvalid, by omega, by omega, by omega⟩]
  exact congrArg some (by omega)

end Fields

/-! ## Stamps -/

namespace Instant

variable {instant later : Instant}

/-- **`instant.InCalendar`** -- the day of the instant has a date in one of the years 1 to 9999. -/
def InCalendar (instant : Instant) : Prop :=
  ∃ date : Date, date.isValid = true ∧ date.days = instant.microseconds / dayMicroseconds

/-- The date of an instant is the one that its day has. -/
theorem date_eq {date : Date} (hvalid : date.isValid = true)
    (hdays : date.days = instant.microseconds / dayMicroseconds) : instant.date = date := by
  rw [Instant.date, ← hdays]
  exact (Date.isValid_iff.mp hvalid).1.ofDays_days

theorem InCalendar.isValid_date (h : instant.InCalendar) : instant.date.isValid = true := by
  obtain ⟨date, hvalid, hdays⟩ := h
  rwa [date_eq hvalid hdays]

/-- The day of an instant and the milliseconds that have passed of it. -/
theorem days_and_clock (instant : Instant) :
    instant.millisecondOfDay < 86400000
      ∧ instant.date.days * 86400000 + instant.millisecondOfDay = instant.microseconds / 1000 := by
  have hdays : instant.date.days = instant.microseconds / dayMicroseconds := (Date.ofDays_spec _).2
  rw [hdays, millisecondOfDay]
  simp only [dayMicroseconds]
  omega

/-- The stamp of an instant of the calendar is a row. -/
theorem InCalendar.stamp_eq (h : instant.InCalendar) :
    instant.stamp
      = .ok (row stampLayout (stampFields instant.date instant.millisecondOfDay)) := by
  obtain ⟨-, hyear, hlast⟩ := Date.isValid_iff.mp h.isValid_date
  rw [stamp, if_pos ⟨hyear, hlast⟩]
  simp [row, stampLayout, stampFields]

/-- **An instant has a stamp exactly where it lies in the calendar.** -/
theorem exists_stamp_iff : (∃ stamp, instant.stamp = .ok stamp) ↔ instant.InCalendar := by
  constructor
  · rintro ⟨text, htext⟩
    obtain ⟨hday, hdays⟩ := Date.ofDays_spec (instant.microseconds / dayMicroseconds)
    rw [stamp] at htext
    split at htext
    next hyear => exact ⟨instant.date, Date.isValid_iff.mpr ⟨hday, hyear⟩, hdays⟩
    next => cases htext
  · intro h
    exact ⟨_, h.stamp_eq⟩

/-- Stamps sort as their instants. -/
theorem InCalendar.stamp_le (h : instant.InCalendar) (hlater : later.InCalendar)
    (hle : instant.microseconds ≤ later.microseconds) :
    ∃ text laterText, instant.stamp = .ok text ∧ later.stamp = .ok laterText
      ∧ String.ofList text ≤ String.ofList laterText := by
  refine ⟨_, _, h.stamp_eq, hlater.stamp_eq, ?_⟩
  obtain ⟨hclock, htime⟩ := days_and_clock instant
  obtain ⟨hlaterClock, hlaterTime⟩ := days_and_clock later
  rcases Int.lt_or_eq_of_le (Int.ediv_le_ediv (by decide : (0 : Int) < 1000) hle) with hlt | heq
  · have hfields := stampFields_lt h.isValid_date hlater.isValid_date hclock hlaterClock (by omega)
    have hrows := row_lt (fits_stampFields h.isValid_date hclock)
      (fits_stampFields hlater.isValid_date hlaterClock) hfields
    refine le_of_lt (String.lt_iff_toList_lt.mpr ?_)
    rw [String.toList_ofList, String.toList_ofList]
    exact hrows
  · -- Instants of one millisecond lie on one day, at one time of day.
    have hdays : instant.date.days = later.date.days := by omega
    have hdate := (Date.isValid_iff.mp h.isValid_date).1.eq_of_days_eq
      (Date.isValid_iff.mp hlater.isValid_date).1 hdays
    have hclocks : instant.millisecondOfDay = later.millisecondOfDay := by omega
    rw [hdate, hclocks]

/-- **Stamps are exact and sort as texts.** An instant whose day has a date in one of the years 1 to
9999 has a stamp of the fixed form, a day of the calendar and a time of day that are read back as
the milliseconds of the instant, rounded down. It is the member ts of each JSON line of the instant,
and no later instant of the calendar has a stamp that sorts in front of it. -/
theorem stamp_exact (h : instant.InCalendar) :
    ∃ text : List Char, instant.stamp = .ok text
      ∧ text.length = 24 ∧ hasForm stampForm text = true
      ∧ readStamp? text = some (instant.microseconds / 1000)
      ∧ (∀ version (call : Call) message, call.message = .ok message →
          ∃ line members, (Layout.json version).lineAt instant call = .ok line
            ∧ Json.read? line.toList
              = some (.mapping (("ts", .string (String.ofList text)) :: members)))
      ∧ ∀ later : Instant, later.InCalendar → instant.microseconds ≤ later.microseconds →
          ∃ laterText, later.stamp = .ok laterText
            ∧ String.ofList text ≤ String.ofList laterText := by
  obtain ⟨hclock, htime⟩ := days_and_clock instant
  refine ⟨_, h.stamp_eq, by simp [row, stampLayout, stampFields], ?_, ?_, ?_, ?_⟩
  · rw [← rowForm_stampLayout]
    exact hasForm_row rfl
  · rw [readStamp?_row h.isValid_date hclock, htime]
  · intro version call message hmessage
    exact ⟨_, _, lineAt_json version h.stamp_eq hmessage, read?_documentLine _⟩
  · intro later hlater hle
    obtain ⟨text, laterText, htext, hlaterText, hsorted⟩ := h.stamp_le hlater hle
    obtain rfl := Except.ok.inj (h.stamp_eq.symm.trans htext)
    exact ⟨laterText, hlaterText, hsorted⟩

/-- The last microsecond in front of 1970 has the last stamp of its year, and the leap day of 2000
sorts behind it. -/
theorem stamp_exact_new_year :
    (⟨-1⟩ : Instant).InCalendar
      ∧ (⟨-1⟩ : Instant).stamp = .ok "1969-12-31T23:59:59.999Z".toList
      ∧ readStamp? "1969-12-31T23:59:59.999Z".toList = some (-1)
      ∧ "1969-12-31T23:59:59.999Z" ≤ "2000-02-29T00:00:00.000Z" := by
  have hcalendar : (⟨-1⟩ : Instant).InCalendar := ⟨⟨1969, 12, 31⟩, by decide, by decide⟩
  have hlater : (⟨951782400000000⟩ : Instant).InCalendar := ⟨⟨2000, 2, 29⟩, by decide, by decide⟩
  have hstamp : (⟨-1⟩ : Instant).stamp = .ok "1969-12-31T23:59:59.999Z".toList := rfl
  have hlaterStamp : (⟨951782400000000⟩ : Instant).stamp
      = .ok "2000-02-29T00:00:00.000Z".toList := rfl
  obtain ⟨text, htext, -, -, hread, -, hsorted⟩ := stamp_exact hcalendar
  obtain ⟨laterText, hlaterText, hle⟩ := hsorted _ hlater (by decide)
  obtain rfl := Except.ok.inj (hstamp.symm.trans htext)
  obtain rfl := Except.ok.inj (hlaterStamp.symm.trans hlaterText)
  exact ⟨hcalendar, hstamp, hread, hle⟩

end Instant

end ArchiveRecord.Log
