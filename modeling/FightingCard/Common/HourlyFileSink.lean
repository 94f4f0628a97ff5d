import Mathlib.Data.List.Destutter
import FightingCard.Lib.Calendar
import FightingCard.Lib.Decimal

set_option relaxedAutoImplicit false
set_option autoImplicit false

/-!
# Hourly log files

The sink of `common/hourly_file_sink.h`, which starts a new file every hour. A message carries the
time at which it was logged, and the logger is asynchronous: the sink gets the message later. The
name of a file is computed from the time of the message that opens it, the end of the file from the
clock at that moment. The two may be in different hours.

The zone may repeat local hours: the hours of the epoch that are the same local hour share a file.

Time points count nanoseconds, as `std::chrono::system_clock` does.

## Main definitions

* `FightingCard.calcFilename` — the name of the file of an hour.
* `FightingCard.HourlyFileSink` — the open file and the end of it.
* `FightingCard.HourlyFileSink.Stamp` — a time that is noted and the clock when it is used.
* `FightingCard.HourlyFileSink.Prompt` — no local hour begins while the clock has passed it.

## Main results

* `FightingCard.calcFilename_eq_iff` — every local hour has a name of its own.
* `FightingCard.HourlyFileSink.file_of_hour_iff` — when every message is written to the file of its
  hour.
* `FightingCard.HourlyFileSink.prompt_iff_of_regular` — what this says where no hour is repeated.
-/

namespace FightingCard

/-- `filename_t`. -/
abbrev Filename := List Char

/-- `calc_filename(filename, now_tm)`, over `split_by_extenstion`: the format
`"{}_{:04d}-{:02d}-{:02d}_{:02d}{}"`. -/
def calcFilename (splitByExtension : Filename → Filename × Filename) (filename : Filename)
    (nowTm : Tm) : Filename :=
  let (basename, ext) := splitByExtension filename
  basename ++ '_' :: (Decimal.pad 4 (nowTm.year + 1900) ++ '-' :: (Decimal.pad 2 (nowTm.mon + 1) ++
    '-' :: (Decimal.pad 2 nowTm.mday ++ '_' :: (Decimal.pad 2 nowTm.hour ++ ext))))

/-- **The name tells the local hour.** -/
lemma calcFilename_eq_iff {splitByExtension : Filename → Filename × Filename} {filename : Filename}
    {tm tm' : Tm} : calcFilename splitByExtension filename tm =
      calcFilename splitByExtension filename tm' ↔ tm.dateHour = tm'.dateHour := by
  simp only [Tm.dateHour, Prod.mk.injEq]
  constructor
  · intro h
    have hdash : '-'.isDigit = false := by decide
    have hline : '_'.isDigit = false := by decide
    obtain ⟨hyear, h⟩ := Decimal.pad_append_inj hdash (List.cons.inj (List.append_cancel_left h)).2
    obtain ⟨hmon, h⟩ := Decimal.pad_append_inj hdash h
    obtain ⟨hmday, h⟩ := Decimal.pad_append_inj hline h
    have hhour := Decimal.pad_injective (List.append_cancel_right h)
    omega
  · rintro ⟨hyear, hmon, hmday, hhour⟩
    simp only [calcFilename, hyear, hmon, hmday, hhour]

/-- `hourly_file_sink`: its members, and of the file helper the name of the open file. -/
structure HourlyFileSink where
  baseFilename : Filename
  rotationInterval : ℤ
  rotationTp : ℕ
  filename : Filename
  truncate : Bool
  deriving DecidableEq

namespace HourlyFileSink

/-- The nanoseconds of a second. -/
def second : ℕ := 1000000000

section Sink

variable (cal : Calendar) (splitByExtension : Filename → Filename × Filename)

/-- `now_tm(tp)`. -/
def nowTm (tp : ℕ) : Tm := cal.localtime (tp / second)

/-- `next_rotation_tp_()`, where the clock reads `now`. -/
def nextRotationTp (rotationInterval : ℤ) (now : ℕ) : ℕ :=
  let date := { nowTm cal now with min := 0, sec := 0 }
  let rotationTime := cal.mktime date * second
  if rotationTime > now then rotationTime
  else rotationTime + rotationInterval.toNat * (3600 * second)

/-- The constructor. It reads the clock twice: `now` names the file, `next` is read in
`next_rotation_tp_()`. -/
def new (baseFilename : Filename) (rotationInterval : ℤ) (truncate : Bool) (now next : ℕ) :
    Except String HourlyFileSink :=
  if rotationInterval < 1 || rotationInterval > 24 then
    .error "hourly_file_sink: Invalid rotation time in ctor"
  else
    .ok {
      baseFilename, rotationInterval, truncate
      filename := calcFilename splitByExtension baseFilename (nowTm cal now)
      rotationTp := nextRotationTp cal rotationInterval next }

/-- `sink_it_(msg)` for a message of the time `time`, where the clock reads `now`. The result has
the name of the file to which the message is written. -/
def sinkIt (σ : HourlyFileSink) (time now : ℕ) : HourlyFileSink × Filename :=
  let σ :=
    if time ≥ σ.rotationTp then
      { σ with
        filename := calcFilename splitByExtension σ.baseFilename (nowTm cal time)
        rotationTp := nextRotationTp cal σ.rotationInterval now }
    else σ
  (σ, σ.filename)

/-- A time and a later reading of the clock: those of a message, which is logged at `time` and
processed at `now`, or those of the constructor. -/
structure Stamp where
  time : ℕ
  now : ℕ
  le : time ≤ now

/-- The files to which a sequence of messages is written. -/
def sinkAll (σ : HourlyFileSink) : List Stamp → List Filename
  | [] => []
  | msg :: msgs =>
    let (σ', filename) := σ.sinkIt cal splitByExtension msg.time msg.now
    filename :: sinkAll σ' msgs

/-- The file that `calc_filename` names for the local hour of a message. -/
def fileOf (baseFilename : Filename) (msg : Stamp) : Filename :=
  calcFilename splitByExtension baseFilename (nowTm cal msg.time)

end Sink

/-- The hour of a time point. -/
def hour (tp : ℕ) : ℕ := tp / second / 3600

/-- The local hour of the time of a stamp. -/
def Stamp.localHour (cal : Calendar) (msg : Stamp) : ℕ × ℕ × ℕ × ℕ :=
  cal.localHour (msg.time / second)

variable {cal : Calendar} {splitByExtension : Filename → Filename × Filename}
variable {baseFilename : Filename} {σ : HourlyFileSink} {now : ℕ}

/-- Every local hour has a file of its own. -/
lemma fileOf_eq_iff {a b : Stamp} : fileOf cal splitByExtension baseFilename a =
    fileOf cal splitByExtension baseFilename b ↔ a.localHour cal = b.localHour cal :=
  calcFilename_eq_iff

/-- The file ends when the local hour of the clock does. -/
lemma nextRotationTp_eq :
    nextRotationTp cal 1 now = cal.hourEnd (now / second) * (3600 * second) := by
  have hdate : cal.mktime { nowTm cal now with min := 0, sec := 0 } =
    cal.hourStart (now / second) := rfl
  have hlt : cal.hourStart (now / second) * second > now ↔
      now / second < cal.hourStart (now / second) := (Nat.div_lt_iff_lt_mul (by decide)).symm
  have hstart : cal.hourStart (now / second) = cal.hourStart (now / second) / 3600 * 3600 := by
    have hmod := cal.hourStart_mod (now / second)
    omega
  have hstart_mul : cal.hourStart (now / second) / 3600 * (3600 * second) =
      cal.hourStart (now / second) * second := by rw [← Nat.mul_assoc, ← hstart]
  simp only [nextRotationTp, hdate, hlt, Calendar.hourEnd]
  split
  · exact hstart_mul.symm
  · rw [Nat.add_mul, hstart_mul, Int.toNat_one, Nat.one_mul]

/-- The file has ended before a time point if the local hour of the clock has. -/
lemma nextRotationTp_le_iff {time : ℕ} :
    nextRotationTp cal 1 now ≤ time ↔ cal.hourEnd (now / second) ≤ hour time := by
  rw [nextRotationTp_eq, ← Nat.le_div_iff_mul_le (by decide), Nat.mul_comm 3600,
    ← Nat.div_div_eq_div_mul]
  rfl

/-- Later time points are in later hours. -/
lemma hour_mono {t u : ℕ} (h : t ≤ u) : hour t ≤ hour u :=
  Nat.div_le_div_right (Nat.div_le_div_right h)

/-- The message `msg` comes after the local hour in which the clock was read for `last`. -/
def Follows (cal : Calendar) (last msg : Stamp) : Prop :=
  cal.hourEnd (last.now / second) ≤ hour msg.time

instance (cal : Calendar) (last msg : Stamp) : Decidable (Follows cal last msg) :=
  inferInstanceAs (Decidable (_ ≤ _))

/-! ## The file of every message -/

/-- The file was opened at the stamp `last`: it has the name of that local hour, and the next
rotation was computed then. -/
structure Opened (cal : Calendar) (splitByExtension : Filename → Filename × Filename)
    (last : Stamp) (σ : HourlyFileSink) : Prop where
  rotationInterval : σ.rotationInterval = 1
  filename : σ.filename = fileOf cal splitByExtension σ.baseFilename last
  rotationTp : σ.rotationTp = nextRotationTp cal 1 last.now

/-- A message opens the file of its hour, or it goes to the file that is open. -/
lemma Opened.sinkIt {last : Stamp} (h : Opened cal splitByExtension last σ) (msg : Stamp) :
    (σ.sinkIt cal splitByExtension msg.time msg.now).1.baseFilename = σ.baseFilename ∧
    (σ.sinkIt cal splitByExtension msg.time msg.now).2 = fileOf cal splitByExtension σ.baseFilename
      (if Follows cal last msg then msg else last) ∧
    Opened cal splitByExtension (if Follows cal last msg then msg else last)
      (σ.sinkIt cal splitByExtension msg.time msg.now).1 := by
  have hiff : msg.time ≥ σ.rotationTp ↔ Follows cal last msg := by
    rw [h.rotationTp, ge_iff_le, nextRotationTp_le_iff, Follows]
  by_cases hfollows : Follows cal last msg
  · have hge := hiff.mpr hfollows
    simp only [HourlyFileSink.sinkIt, hge, if_true, hfollows, true_and]
    exact ⟨rfl, h.rotationInterval, rfl, by rw [h.rotationInterval]⟩
  · have hge := mt hiff.mp hfollows
    simp only [HourlyFileSink.sinkIt, hge, if_false, hfollows, true_and]
    exact ⟨h.filename, h⟩

/-- The head of the last group of a sequence of messages. The stamp `start` heads the first group,
and the first message after the local hour in which a head was processed heads the next one. -/
def head (cal : Calendar) (start : Stamp) (msgs : List Stamp) : Stamp :=
  msgs.foldl (fun last msg => if Follows cal last msg then msg else last) start

/-- All messages of a group are of the local hour of its head: no other local hour begins before the
end of the one in which the head was processed. -/
def Prompt (cal : Calendar) (start : Stamp) (msgs : List Stamp) : Prop :=
  ∀ before msg, before ++ [msg] <+: msgs → ¬ Follows cal (head cal start before) msg →
    (head cal start before).localHour cal = msg.localHour cal

/-- The first message belongs to the group of `last`, or it heads the next one. -/
lemma prompt_cons {last msg : Stamp} {msgs : List Stamp} : Prompt cal last (msg :: msgs) ↔
    (¬ Follows cal last msg → last.localHour cal = msg.localHour cal) ∧
      Prompt cal (if Follows cal last msg then msg else last) msgs := by
  constructor
  · intro h
    exact ⟨h [] msg (List.prefix_append [msg] msgs), fun before m hm =>
      h (msg :: before) m (List.cons_prefix_cons.mpr ⟨rfl, hm⟩)⟩
  · rintro ⟨hmsg, h⟩ (_ | ⟨a, before⟩) m hm
    · obtain ⟨rfl, -⟩ := List.cons_prefix_cons.mp hm
      exact hmsg
    · obtain ⟨rfl, hrest⟩ := List.cons_prefix_cons.mp hm
      exact h before m hrest

/-- The messages go to the files of their hours if their groups stay in one local hour. -/
lemma sinkAll_eq_iff {last : Stamp} {msgs : List Stamp}
    (h : Opened cal splitByExtension last σ) :
    σ.sinkAll cal splitByExtension msgs =
      msgs.map (fileOf cal splitByExtension σ.baseFilename) ↔ Prompt cal last msgs := by
  induction msgs generalizing σ last with
  | nil => simp [sinkAll, Prompt]
  | cons msg msgs ih =>
    obtain ⟨hbase, hfile, hopened⟩ := h.sinkIt msg
    rw [sinkAll, List.map_cons, List.cons_eq_cons, ← hbase, ih hopened, hbase, hfile,
      fileOf_eq_iff, prompt_cons]
    by_cases hfollows : Follows cal last msg
    · simp [hfollows]
    · simp [hfollows]

/-- The constructor opens the file of its own hour. -/
lemma opened_new (cal : Calendar) (splitByExtension : Filename → Filename × Filename)
    (baseFilename : Filename) (truncate : Bool) (start : Stamp) : ∃ σ,
    new cal splitByExtension baseFilename 1 truncate start.time start.now = .ok σ ∧
      σ.baseFilename = baseFilename ∧ Opened cal splitByExtension start σ :=
  ⟨_, rfl, rfl, rfl, rfl, rfl⟩

/-- When daylight saving time ends, the messages of the second hour from two to three o'clock are
in the file of the first one. -/
example :
    let start : Stamp := ⟨1540688399 * second, 1540688401 * second, by decide⟩
    let again : Stamp := ⟨1540688400 * second, 1540688401 * second, by decide⟩
    let next : Stamp := ⟨1540692000 * second, 1540692000 * second, by decide⟩
    (new (.endOfDst 427969) (fun filename => (filename, [])) ['s'] 1 false start.time
      start.now).toOption.map (sinkAll (.endOfDst 427969) (fun filename => (filename, [])) ·
        [again, next]) =
      some ["s_2018-10-28_02".toList, "s_2018-10-28_03".toList] := by decide +kernel

/-! ## Zones that repeat no hour -/

/-- The messages that are the first of their hours, after the stamp `last`: each is processed
before the hour of the next one starts. -/
def FirstsPrompt (last : Stamp) (msgs : List Stamp) : Prop :=
  ((last :: msgs).destutter fun a b => hour a.time ≠ hour b.time).IsChain
    fun a b => hour a.now < hour b.time

/-- A message of the same hour changes nothing. -/
lemma firstsPrompt_cons_of_eq {last msg : Stamp} {msgs : List Stamp}
    (h : hour last.time = hour msg.time) :
    FirstsPrompt last (msg :: msgs) ↔ FirstsPrompt last msgs := by
  simp only [FirstsPrompt, List.destutter_cons', List.destutter'_cons, h, ne_eq, not_true, if_false]

/-- A message of another hour must not come while the clock is still before it. -/
lemma firstsPrompt_cons_of_ne {last msg : Stamp} {msgs : List Stamp}
    (h : hour last.time ≠ hour msg.time) :
    FirstsPrompt last (msg :: msgs) ↔ hour last.now < hour msg.time ∧ FirstsPrompt msg msgs := by
  -- the next hour to be opened is that of the message itself
  obtain ⟨rest, hrest⟩ : ∃ rest,
      msgs.destutter' (fun a b => hour a.time ≠ hour b.time) msg = msg :: rest := by
    clear h
    induction msgs with
    | nil => exact ⟨[], rfl⟩
    | cons a msgs ih =>
      rw [List.destutter'_cons]
      split
      · exact ⟨_, rfl⟩
      · exact ih
  simp only [FirstsPrompt, List.destutter_cons', List.destutter'_cons, h, ne_eq, not_false_eq_true,
    if_true] at hrest ⊢
  rw [hrest, List.isChain_cons_cons]

/-- Where every hour has a local hour of its own, the heads of the groups are the first messages of
their hours: none of them is processed in the next hour that has a message, or later. -/
lemma prompt_iff_of_regular (hcal : cal.Regular) {last : Stamp} {msgs : List Stamp} :
    Prompt cal last msgs ↔ FirstsPrompt last msgs := by
  induction msgs generalizing last with
  | nil => simp [Prompt, FirstsPrompt]
  | cons msg msgs ih =>
    have hfollows : Follows cal last msg ↔ hour last.now < hour msg.time := by
      rw [Follows, hcal.hourEnd_eq, Nat.succ_le_iff]
      rfl
    have hhour : last.localHour cal = msg.localHour cal ↔ hour last.time = hour msg.time :=
      hcal.localHour_eq_iff
    have hle := hour_mono last.le
    simp only [prompt_cons, ih, hfollows, hhour]
    by_cases hlt : hour last.now < hour msg.time
    · simp [hlt, firstsPrompt_cons_of_ne (show hour last.time ≠ hour msg.time by omega)]
    · by_cases heq : hour last.time = hour msg.time
      · simp [hlt, heq, firstsPrompt_cons_of_eq heq]
      · simp [hlt, heq, firstsPrompt_cons_of_ne heq]

end HourlyFileSink

end FightingCard
