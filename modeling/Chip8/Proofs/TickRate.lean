import Chip8.Proofs.Clock

/-!
The timers on their own, whoever lets their time pass and sets them. How often they tick depends on
the times alone: each tick uses up more than a sixtieth of a second, and loses at most the time that
brought it. What the timers show, and when the sound timer runs out, follows from the ticks.
-/

namespace Chip8

inductive Timer where
  | delay | sound
  deriving DecidableEq, Repr

inductive TimerUse where
  /-- Time passes, in milliseconds. -/
  | pass (elapsed : UInt32)
  | set (timer : Timer) (value : UInt8)
  deriving DecidableEq, Repr

def TimerUse.times (uses : List TimerUse) : List UInt32 :=
  uses.filterMap fun
    | pass elapsed => some elapsed
    | set .. => none

namespace Timers

def reading (t : Timers) : Timer → UInt8
  | .delay => t.delay
  | .sound => t.sound

def use (t : Timers) : TimerUse → Timers
  | .pass elapsed => (t.advance elapsed).1
  | .set .delay value => { t with delay := value }
  | .set .sound value => { t with sound := value }

def useAll (t : Timers) (uses : List TimerUse) : Timers := uses.foldl use t

/-- The times that pass, each with the timers as it finds them. -/
def passes (t : Timers) : List TimerUse → List (Timers × UInt32)
  | [] => []
  | .pass elapsed :: rest => (t, elapsed) :: (t.advance elapsed).1.passes rest
  | .set timer value :: rest => (t.use (.set timer value)).passes rest

def tickCount (t : Timers) (uses : List TimerUse) : Nat :=
  (t.passes uses).countP fun (timers, elapsed) => timers.ticks elapsed

def expiryCount (t : Timers) (uses : List TimerUse) : Nat :=
  (t.passes uses).countP fun (timers, elapsed) => (timers.advance elapsed).2

/-! ### One use -/

section Use

variable (t : Timers) (elapsed : UInt32) (timer : Timer) (value : UInt8) (rest : List TimerUse)

theorem use_pass : t.use (.pass elapsed) = (t.advance elapsed).1 := rfl

theorem useAll_cons (use : TimerUse) : t.useAll (use :: rest) = (t.use use).useAll rest := rfl

theorem gathered_advance :
    (t.advance elapsed).1.gathered =
      if 16 < t.gathered + elapsed.toNat then 0 else t.gathered + elapsed.toNat := by
  by_cases h : t.ticks elapsed = true
  · rw [advance_of_ticks h, if_pos ((t.ticks_iff elapsed).mp h)]
  · rw [advance_of_not_ticks h, if_neg (mt (t.ticks_iff elapsed).mpr h)]

theorem gathered_set : (t.use (.set timer value)).gathered = t.gathered := by
  cases timer <;> rfl

theorem toNat_reading_advance :
    ((t.advance elapsed).1.reading timer).toNat =
      (t.reading timer).toNat - if t.ticks elapsed then 1 else 0 := by
  by_cases h : t.ticks elapsed = true
  · rw [advance_of_ticks h, if_pos h]
    cases timer <;> exact toNat_down _
  · rw [advance_of_not_ticks h, if_neg h]
    cases timer <;> rfl

theorem reading_set_of_ne {timer' : Timer} (h : timer ≠ timer') :
    (t.use (.set timer value)).reading timer' = t.reading timer' := by
  cases timer with
  | delay =>
      cases timer' with
      | delay => exact absurd rfl h
      | sound => rfl
  | sound =>
      cases timer' with
      | delay => rfl
      | sound => exact absurd rfl h

theorem tickCount_pass :
    t.tickCount (.pass elapsed :: rest) =
      (t.advance elapsed).1.tickCount rest + if t.ticks elapsed then 1 else 0 := by
  rw [tickCount, passes, List.countP_cons]
  rfl

theorem tickCount_set :
    t.tickCount (.set timer value :: rest) = (t.use (.set timer value)).tickCount rest := rfl

theorem expiryCount_pass :
    t.expiryCount (.pass elapsed :: rest) =
      (t.advance elapsed).1.expiryCount rest + if (t.advance elapsed).2 then 1 else 0 := by
  rw [expiryCount, passes, List.countP_cons]
  rfl

end Use

/-! ### The number of ticks -/

/-- The ticks are those that the times would make with nothing set in between. -/
theorem tickCount_eq_of_gathered {t t' : Timers} (h : t.gathered = t'.gathered)
    (uses : List TimerUse) :
    t.tickCount uses = t'.tickCount ((TimerUse.times uses).map .pass) := by
  induction uses generalizing t t' with
  | nil => rfl
  | cons use rest ih =>
      cases use with
      | set timer value => exact ih ((t.gathered_set timer value).trans h)
      | pass elapsed =>
          have hticks : t.ticks elapsed = t'.ticks elapsed := by rw [ticks, ticks, h]
          have hrest : (t.advance elapsed).1.gathered = (t'.advance elapsed).1.gathered := by
            rw [gathered_advance, gathered_advance, h]
          have htimes : TimerUse.times (.pass elapsed :: rest) =
              elapsed :: TimerUse.times rest := rfl
          rw [htimes, List.map_cons, tickCount_pass, tickCount_pass, ih hrest, hticks]

theorem length_passes (t : Timers) (uses : List TimerUse) :
    (t.passes uses).length = (TimerUse.times uses).length := by
  induction uses generalizing t with
  | nil => rfl
  | cons use rest ih =>
      cases use with
      | set timer value => exact ih _
      | pass elapsed => exact congrArg Nat.succ (ih _)

def total (times : List UInt32) : Nat := times.foldr (fun elapsed rest => elapsed.toNat + rest) 0

theorem total_pass (elapsed : UInt32) (rest : List TimerUse) :
    total (TimerUse.times (.pass elapsed :: rest)) =
      elapsed.toNat + total (TimerUse.times rest) := rfl

/-- Every tick uses up at least seventeen milliseconds. -/
theorem ticks_paid (t : Timers) (uses : List TimerUse) :
    17 * t.tickCount uses + (t.useAll uses).gathered ≤
      t.gathered + total (TimerUse.times uses) := by
  induction uses generalizing t with
  | nil => exact Nat.le_of_eq (Nat.zero_add _)
  | cons use rest ih =>
      cases use with
      | set timer value =>
          have hrest := ih (t.use (.set timer value))
          rw [gathered_set] at hrest
          exact hrest
      | pass elapsed =>
          have hrest := ih (t.advance elapsed).1
          rw [gathered_advance] at hrest
          rw [total_pass, useAll_cons, use_pass, tickCount_pass]
          by_cases htick : t.ticks elapsed = true
          · have hover := (t.ticks_iff elapsed).mp htick
            rw [if_pos hover] at hrest
            rw [if_pos htick]
            omega
          · have hunder := mt (t.ticks_iff elapsed).mpr htick
            rw [if_neg hunder] at hrest
            rw [if_neg htick]
            omega

/-- A tick loses at most what was gathered before it and the time that brought it. -/
theorem times_accounted {t : Timers} (h : t.gathered ≤ 16) {uses : List TimerUse} {limit : Nat}
    (hlimit : ∀ elapsed ∈ TimerUse.times uses, elapsed.toNat ≤ limit) :
    t.gathered + total (TimerUse.times uses) ≤
      (16 + limit) * t.tickCount uses + (t.useAll uses).gathered := by
  induction uses generalizing t with
  | nil => exact Nat.le_of_eq (Nat.add_comm _ _)
  | cons use rest ih =>
      cases use with
      | set timer value =>
          have hrest := ih (t := t.use (.set timer value)) (by rwa [gathered_set]) hlimit
          rw [gathered_set] at hrest
          exact hrest
      | pass elapsed =>
          obtain ⟨hnow, hlater⟩ := List.forall_mem_cons.mp hlimit
          have hrest := ih (t.advance_gathered_le elapsed) hlater
          rw [gathered_advance] at hrest
          rw [total_pass, useAll_cons, use_pass, tickCount_pass]
          by_cases htick : t.ticks elapsed = true
          · have hover := (t.ticks_iff elapsed).mp htick
            rw [if_pos hover] at hrest
            rw [if_pos htick, Nat.mul_succ]
            omega
          · have hunder := mt (t.ticks_iff elapsed).mpr htick
            rw [if_neg hunder] at hrest
            rw [if_neg htick, Nat.add_zero]
            omega

theorem gathered_useAll_le {t : Timers} (h : t.gathered ≤ 16) (uses : List TimerUse) :
    (t.useAll uses).gathered ≤ 16 := by
  induction uses generalizing t with
  | nil => exact h
  | cons use rest ih =>
      cases use with
      | set timer value => exact ih (t := t.use (.set timer value)) (by rwa [gathered_set])
      | pass elapsed => exact ih (t.advance_gathered_le elapsed)

/-! ### Between two settings -/

/-- A timer that is not set goes down with the ticks. -/
theorem toNat_reading_useAll {timer : Timer} {uses : List TimerUse}
    (h : ∀ value, .set timer value ∉ uses) (t : Timers) :
    ((t.useAll uses).reading timer).toNat = (t.reading timer).toNat - t.tickCount uses := by
  induction uses generalizing t with
  | nil => rfl
  | cons use rest ih =>
      have hrest := ih (fun value hmem => h value (List.mem_cons_of_mem _ hmem)) (t.use use)
      rw [useAll_cons, hrest]
      cases use with
      | set timer' value =>
          have hne : timer' ≠ timer := by
            rintro rfl
            exact h value List.mem_cons_self
          rw [reading_set_of_ne _ _ _ hne, tickCount_set]
      | pass elapsed =>
          rw [use_pass, toNat_reading_advance, tickCount_pass]
          omega

/-- The sound timer runs out at the tick that its reading counts. -/
theorem expired_iff {t : Timers} {front : List TimerUse} (h : ∀ value, .set .sound value ∉ front)
    (elapsed : UInt32) :
    ((t.useAll front).advance elapsed).2 = true ↔
      (t.useAll front).ticks elapsed = true ∧ t.tickCount front + 1 = t.sound.toNat := by
  have hreading : (t.useAll front).sound.toNat = t.sound.toNat - t.tickCount front :=
    toNat_reading_useAll h t
  have hone : (t.useAll front).sound = 1 ↔ (t.useAll front).sound.toNat = 1 :=
    UInt8.toNat_inj.symm
  rw [advance_expired_iff, hone, hreading]
  refine and_congr_right fun _ => ?_
  omega

theorem expiryCount_eq {uses : List TimerUse} (h : ∀ value, .set .sound value ∉ uses)
    (t : Timers) :
    t.expiryCount uses =
      if 0 < t.sound.toNat ∧ t.sound.toNat ≤ t.tickCount uses then 1 else 0 := by
  induction uses generalizing t with
  | nil =>
      have hnever : ¬(0 < t.sound.toNat ∧ t.sound.toNat ≤ 0) := by omega
      exact (if_neg hnever).symm
  | cons use rest ih =>
      have hlater : ∀ value, .set .sound value ∉ rest :=
        fun value hmem => h value (List.mem_cons_of_mem _ hmem)
      cases use with
      | set timer value =>
          cases timer with
          | delay => exact ih hlater _
          | sound => exact absurd List.mem_cons_self (h value)
      | pass elapsed =>
          have hsound : (t.advance elapsed).1.sound.toNat =
              t.sound.toNat - if t.ticks elapsed then 1 else 0 :=
            t.toNat_reading_advance elapsed .sound
          have hexpired : (t.advance elapsed).2 = true ↔
              t.ticks elapsed = true ∧ t.sound.toNat = 1 := by
            rw [advance_expired_iff, ← UInt8.toNat_inj]
            rfl
          rw [expiryCount_pass, tickCount_pass, ih hlater, hsound]
          by_cases htick : t.ticks elapsed = true
          · simp only [hexpired, htick, if_true, true_and]
            split <;> split <;> split <;> omega
          · simp only [hexpired, htick, if_false, false_and, Bool.false_eq_true, Nat.sub_zero,
              Nat.add_zero]

/-- How often the timers tick, and what the ticks do to them.

The timers start out fresh, and are set at any points between the times that pass. Then the number
of ticks depends on the times only. There is at most one tick for each time and for every seventeen
milliseconds. If no time is longer than `limit`, all but `16 + limit` milliseconds for each tick are
still gathered at the end, at most sixteen. No sum or product on the way leaves sixty-four bits.

From timers in any state on, a timer goes down with the ticks to zero for as long as it is not set.
The sound timer runs out at the tick that its reading has counted off, if there are so many ticks,
and this is reported for the time that makes this tick and for no other. -/
theorem tick_rate (uses : List TimerUse) :
    let times := TimerUse.times uses
    let ticks := zero.tickCount uses
    let left := (zero.useAll uses).gathered
    ((∀ uses', TimerUse.times uses' = times → zero.tickCount uses' = ticks) ∧
      ticks ≤ times.length ∧ 17 * ticks ≤ total times ∧
      (∀ limit, (∀ elapsed ∈ times, elapsed.toNat ≤ limit) →
        total times ≤ (16 + limit) * ticks + left) ∧
      left ≤ 16 ∧
      ∀ elapsed : UInt32, (left + elapsed.toNat) * rate < UInt64.size) ∧
    ∀ (start : Timers) (stretch : List TimerUse),
      let ticks := start.tickCount stretch
      (∀ timer, (∀ value, .set timer value ∉ stretch) →
        ((start.useAll stretch).reading timer).toNat = (start.reading timer).toNat - ticks) ∧
      ((∀ value, .set .sound value ∉ stretch) →
        (∀ front elapsed back, stretch = front ++ .pass elapsed :: back →
          (((start.useAll front).advance elapsed).2 = true ↔
            (start.useAll front).ticks elapsed = true ∧
              start.tickCount front + 1 = start.sound.toNat)) ∧
        start.expiryCount stretch =
          if 0 < start.sound.toNat ∧ start.sound.toNat ≤ ticks then 1 else 0) := by
  intro times ticks left
  have hleft : left ≤ 16 := gathered_useAll_le (Nat.zero_le _) uses
  have hpaid : 17 * ticks + left ≤ 0 + total times := zero.ticks_paid uses
  refine ⟨⟨fun uses' htimes => ?_, ?_, by omega, fun limit hlimit => ?_, hleft,
    fun elapsed => ?_⟩, ?_⟩
  · have hsame (uses : List TimerUse) :
        zero.tickCount uses = zero.tickCount ((TimerUse.times uses).map .pass) :=
      tickCount_eq_of_gathered rfl uses
    rw [hsame uses', htimes]
    exact (hsame uses).symm
  · rw [← zero.length_passes uses]
    exact List.countP_le_length
  · have haccount : 0 + total times ≤ (16 + limit) * ticks + left :=
      times_accounted (t := zero) (Nat.zero_le _) hlimit
    omega
  · have helapsed := elapsed.toNat_lt
    simp only [rate, UInt64.size]
    omega
  · intro start stretch ticks
    refine ⟨fun timer h => toNat_reading_useAll h start, fun h => ⟨?_, expiryCount_eq h start⟩⟩
    rintro front elapsed back rfl
    exact expired_iff (fun value hmem => h value (List.mem_append_left _ hmem)) elapsed

/-- Three ticks, one of them from two times, and a sound timer that runs out at the second one. -/
theorem tick_rate_of_three_ticks :
    let stretch : List TimerUse := [.pass 17, .pass 10, .set .delay 3, .pass 7, .pass 1000]
    let uses : List TimerUse := .set .sound 2 :: stretch
    let start := zero.use (.set .sound 2)
    zero.tickCount uses = 3 ∧ zero.tickCount (stretch.eraseIdx 2) = 3 ∧
      total (TimerUse.times uses) ≤ (16 + 1000) * 3 ∧
      ((start.useAll stretch).reading .sound).toNat = 2 - 3 ∧
      ((start.useAll [.pass 17, .pass 10, .set .delay 3]).advance 7).2 = true ∧
      start.expiryCount stretch = 1 := by
  intro stretch uses start
  have hcount : zero.tickCount uses = 3 := by decide +kernel
  have hticks : start.tickCount stretch = 3 := hcount
  obtain ⟨⟨hsame, -, -, haccount, -⟩, hstretch⟩ := tick_rate uses
  have hunset : ∀ value, .set .sound value ∉ stretch := by simp [stretch]
  obtain ⟨hreading, hexpiry⟩ := hstretch start stretch
  obtain ⟨hexpired, hexpiries⟩ := hexpiry hunset
  rw [hticks] at hreading hexpiries
  refine ⟨hcount, (hsame _ rfl).trans hcount, ?_, hreading .sound hunset, ?_, hexpiries⟩
  · have hlimit : ∀ elapsed ∈ TimerUse.times uses, elapsed.toNat ≤ 1000 := by
      simp [TimerUse.times, uses, stretch]
    have htotal := haccount 1000 hlimit
    rwa [hcount] at htotal
  · exact (hexpired _ 7 [.pass 1000] rfl).mpr (by decide +kernel)

end Timers

end Chip8
