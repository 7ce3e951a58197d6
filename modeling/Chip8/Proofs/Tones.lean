import Chip8.Console.Beeper
import Mathlib.Data.List.Induction

/-!
When the beeper is heard. The sound device is left open but for what its calls are for: it is silent
when it has just been opened, a call lets it play, and another one stops it. What the beeper keeps,
the time of one start, then tells exactly whether the device plays, and the whole past of the beeper
comes down to its last beep.
-/

namespace Chip8.Console

/-- A sound device in states `σ`, as far as it is relied on. -/
structure SoundDevice (σ : Type) where
  call : σ → AudioCall → σ
  plays : σ → Bool
  plays_open (d : σ) (format : AudioFormat) : plays (call d (.openDevice format)) = false
  plays_resume (d : σ) : plays (call d .resume) = true
  plays_pause (d : σ) : plays (call d .pause) = false

def SoundDevice.after {σ : Type} (device : SoundDevice σ) (d : σ) (calls : List AudioCall) : σ :=
  calls.foldl device.call d

/-- A device that is nothing but on or off. -/
def SoundDevice.switch : SoundDevice Bool where
  call _
    | .openDevice _ | .pause => false
    | .resume => true
  plays on := on
  plays_open _ _ := rfl
  plays_resume _ := rfl
  plays_pause _ := rfl

inductive Request where
  | beep | update
  deriving DecidableEq, Repr

/-- A use of the beeper: what was asked of it, and when. -/
structure Use where
  request : Request
  now : Nat
  deriving DecidableEq, Repr

namespace Use

def Ordered (uses : List Use) : Prop := uses.Pairwise fun u v => u.now ≤ v.now

def beeps (uses : List Use) : List Nat :=
  (uses.filter fun u => u.request = .beep).map Use.now

theorem mem_beeps {uses : List Use} {time : Nat} : time ∈ beeps uses ↔ ⟨.beep, time⟩ ∈ uses := by
  simp only [beeps, List.mem_map, List.mem_filter, decide_eq_true_eq]
  constructor
  · rintro ⟨⟨request, now⟩, ⟨hmem, rfl⟩, rfl⟩
    exact hmem
  · intro hmem
    exact ⟨_, ⟨hmem, rfl⟩, rfl⟩

theorem beeps_append (uses uses' : List Use) :
    beeps (uses ++ uses') = beeps uses ++ beeps uses' := by
  simp only [beeps, List.filter_append, List.map_append]

theorem beeps_eq_nil {uses : List Use} (h : ∀ u ∈ uses, u.request = .update) : beeps uses = [] := by
  rw [beeps, List.map_eq_nil_iff, List.filter_eq_nil_iff]
  intro u hu
  simp [h u hu]

theorem Ordered.of_append {uses : List Use} {u : Use} (h : Ordered (uses ++ [u])) :
    Ordered uses ∧ ∀ v ∈ uses, v.now ≤ u.now := by
  obtain ⟨huses, -, hlast⟩ := List.pairwise_append.mp h
  exact ⟨huses, fun v hv => hlast v hv u (List.mem_singleton_self u)⟩

/-- The last beep is the latest one. -/
theorem Ordered.beep_le_last {uses : List Use} (h : Ordered uses) {last time : Nat}
    (hlast : (beeps uses).getLast? = some last) (htime : time ∈ beeps uses) : time ≤ last := by
  have hbeeps : (beeps uses).Pairwise (· ≤ ·) := List.pairwise_map.mpr (h.filter _)
  obtain ⟨before, hsplit⟩ := List.getLast?_eq_some_iff.mp hlast
  rw [hsplit] at hbeeps htime
  rcases List.mem_append.mp htime with hbefore | hsame
  · exact (List.pairwise_append.mp hbeeps).2.2 time hbefore last (List.mem_singleton_self last)
  · exact Nat.le_of_eq (List.mem_singleton.mp hsame)

end Use

namespace Beeper

/-- What a use leaves and calls, when a tone has this length. -/
def use (length : Nat) (b : Beeper) (u : Use) : Beeper × List AudioCall :=
  match u.request with
  | .beep => b.beep u.now
  | .update => b.update u.now length

/-- The beeper after some uses, and all the calls that it has made since it was opened. -/
def after (length : Nat) (uses : List Use) : Beeper × List AudioCall :=
  uses.foldl
    (fun (b, calls) u =>
      let (used, more) := b.use length u
      (used, calls ++ more))
    (silent, openingCalls)

/-! ### One use -/

section Use

variable (length : Nat) (uses : List Use) (u : Use)

theorem after_append_singleton :
    after length (uses ++ [u]) =
      (((after length uses).1.use length u).1,
        (after length uses).2 ++ ((after length uses).1.use length u).2) := by
  simp only [after, List.foldl_append, List.foldl_cons, List.foldl_nil]

variable {u}

theorem started?_use_of_beep (h : u.request = .beep) (b : Beeper) :
    (b.use length u).1.started? = some u.now := by
  simp only [use, h, beep]

/-- Seeing to the beeper keeps the tone that has not lasted long enough. -/
theorem started?_use_of_update (h : u.request = .update) (b : Beeper) :
    (b.use length u).1.started? = b.started?.filter fun started => u.now - started < length := by
  simp only [use, h, update]
  cases hstarted : b.started? with
  | none => exact hstarted
  | some started =>
      by_cases hlong : length ≤ u.now - started
      · simp [hlong, silent, Option.filter_some]
      · simp [hlong, hstarted, Option.filter_some]

theorem plays_use {σ : Type} (device : SoundDevice σ) {d : σ} {b : Beeper} (u : Use)
    (h : device.plays d = b.started?.isSome) :
    device.plays (device.after d (b.use length u).2) =
      (b.use length u).1.started?.isSome := by
  obtain ⟨request, now⟩ := u
  cases request with
  | beep => exact device.plays_resume d
  | update =>
      simp only [use, update]
      cases hstarted : b.started? with
      | none => simpa [SoundDevice.after, hstarted] using h
      | some started =>
          rw [hstarted] at h
          dsimp only
          split
          · exact device.plays_pause d
          · simpa [SoundDevice.after, hstarted] using h

end Use

/-! ### Many uses -/

section Uses

variable (length : Nat) {uses : List Use}

/-- The device plays exactly while the start of a tone is kept. -/
theorem plays_after {σ : Type} (device : SoundDevice σ) (d : σ) (uses : List Use) :
    device.plays (device.after d (after length uses).2) =
      (after length uses).1.started?.isSome := by
  induction uses using List.reverseRecOn with
  | nil => exact device.plays_open d .beeper
  | append_singleton uses u ih =>
      rw [after_append_singleton, SoundDevice.after, List.foldl_append]
      exact plays_use length device u ih

/-- Of the past only the last beep counts, and only as long as its tone lasts. -/
theorem started?_after {now : Nat} (hpast : ∀ u ∈ uses, u.now ≤ now) :
    ((after length uses).1.started?.filter fun started => now - started < length) =
      (Use.beeps uses).getLast?.filter fun started => now - started < length := by
  induction uses using List.reverseRecOn with
  | nil => rfl
  | append_singleton uses u ih =>
      have hbefore := ih fun v hv => hpast v (List.mem_append_left _ hv)
      have hnow := hpast u (List.mem_append_right _ (List.mem_singleton_self u))
      rw [after_append_singleton]
      cases hrequest : u.request with
      | beep =>
          rw [started?_use_of_beep length hrequest]
          simp [Use.beeps, hrequest]
      | update =>
          -- the tones that this use would end are over by now
          have hover : ∀ started, (decide (u.now - started < length) &&
              decide (now - started < length)) = decide (now - started < length) := by
            intro started
            rw [← Bool.decide_and]
            exact decide_eq_decide.mpr (by omega)
          rw [started?_use_of_update length hrequest, Option.filter_filter]
          simpa [Use.beeps, hrequest, hover] using hbefore

theorem started?_after_update {now : Nat} (h : Use.Ordered (uses ++ [⟨.update, now⟩])) :
    (after length (uses ++ [⟨.update, now⟩])).1.started? =
      (Use.beeps uses).getLast?.filter fun started => now - started < length := by
  rw [after_append_singleton, started?_use_of_update length rfl]
  exact started?_after length h.of_append.2

/-- A tone is kept exactly if one that was started has not lasted long enough. -/
theorem isSome_started?_after_update {now : Nat} (h : Use.Ordered (uses ++ [⟨.update, now⟩])) :
    (after length (uses ++ [⟨.update, now⟩])).1.started?.isSome = true ↔
      ∃ time, ⟨.beep, time⟩ ∈ uses ∧ now - time < length := by
  rw [started?_after_update length h]
  simp only [Option.isSome_filter, Option.any_eq_true, decide_eq_true_eq, ← Use.mem_beeps]
  constructor
  · rintro ⟨last, hlast, hlong⟩
    exact ⟨last, List.mem_of_getLast? hlast, hlong⟩
  · rintro ⟨time, htime, hlong⟩
    obtain ⟨last, hlast⟩ := Option.isSome_iff_exists.mp
      (List.getLast?_isSome.mpr (List.ne_nil_of_mem htime))
    refine ⟨last, hlast, ?_⟩
    have hle := h.of_append.1.beep_le_last hlast htime
    omega

/-- What the beeper keeps after a use is told by this use and the beeps before it. -/
theorem after_eq_of_beeps {uses' : List Use} {u : Use} (h : Use.Ordered (uses ++ [u]))
    (h' : Use.Ordered (uses' ++ [u])) (hbeeps : Use.beeps uses = Use.beeps uses') :
    (after length (uses ++ [u])).1 = (after length (uses' ++ [u])).1 := by
  refine congrArg Beeper.mk ?_
  obtain ⟨request, now⟩ := u
  cases request with
  | beep => simp only [after_append_singleton, started?_use_of_beep]
  | update => rw [started?_after_update length h, started?_after_update length h', hbeeps]

end Uses

/-- When the beeper is heard, on any device and with a clock of any fineness, `unit` to the
millisecond. The device plays exactly while the start of a tone is kept. After an update it plays
exactly if some beep was less than 120 milliseconds ago; so the newest beep prolongs the tone that
sounds, and how often the beeper was seen to before does not matter for what it keeps and whether it
is heard. -/
theorem plays_until_over {σ : Type} (device : SoundDevice σ) (d : σ) (unit : Nat) :
    let keeps (uses : List Use) : Beeper := (after (120 * unit) uses).1
    let plays (uses : List Use) : Bool :=
      device.plays (device.after d (after (120 * unit) uses).2)
    (∀ uses, plays uses = (keeps uses).started?.isSome) ∧
    (∀ uses now, Use.Ordered (uses ++ [⟨.update, now⟩]) →
      (plays (uses ++ [⟨.update, now⟩]) = true ↔
        ∃ time, ⟨.beep, time⟩ ∈ uses ∧ now - time < 120 * unit)) ∧
    (∀ earlier time updates now,
      let uses := earlier ++ ⟨.beep, time⟩ :: updates
      Use.Ordered (uses ++ [⟨.update, now⟩]) → (∀ u ∈ updates, u.request = .update) →
        (plays (uses ++ [⟨.update, now⟩]) = true ↔ now - time < 120 * unit)) ∧
    ∀ uses uses' u, Use.Ordered (uses ++ [u]) → Use.Ordered (uses' ++ [u]) →
      Use.beeps uses = Use.beeps uses' →
        keeps (uses ++ [u]) = keeps (uses' ++ [u]) ∧
          plays (uses ++ [u]) = plays (uses' ++ [u]) := by
  intro keeps plays
  have hplays : ∀ uses, plays uses = (keeps uses).started?.isSome := plays_after _ device d
  refine ⟨hplays, ?_, ?_, ?_⟩
  · intro uses now h
    rw [hplays]
    exact isSome_started?_after_update _ h
  · intro earlier time updates now uses h hupdates
    have hlast : (Use.beeps uses).getLast? = some time := by
      rw [Use.beeps_append, ← List.singleton_append, Use.beeps_append, Use.beeps_eq_nil hupdates]
      exact List.getLast?_concat
    have hkeeps : (keeps (uses ++ [⟨.update, now⟩])).started? =
        (some time).filter fun started => now - started < 120 * unit := by
      rw [← hlast]
      exact started?_after_update _ h
    rw [hplays, hkeeps]
    simp [Option.filter_some]
  · intro uses uses' u h h' hbeeps
    have hkeeps : keeps (uses ++ [u]) = keeps (uses' ++ [u]) := after_eq_of_beeps _ h h' hbeeps
    exact ⟨hkeeps, by rw [hplays, hplays, hkeeps]⟩

/-- A beep at the very end of a tone, on a clock that counts nanoseconds: the tone goes on and is
over after another 120 milliseconds. -/
theorem plays_until_over_restarted :
    let plays (uses : List Use) : Bool :=
      SoundDevice.switch.plays (SoundDevice.switch.after true (after (120 * 1000000) uses).2)
    let earlier : List Use := [⟨.beep, 0⟩, ⟨.update, 119999999⟩]
    plays (earlier ++ [⟨.beep, 119999999⟩] ++ [⟨.update, 239999998⟩]) = true ∧
      plays (earlier ++ [⟨.beep, 119999999⟩] ++ [⟨.update, 239999999⟩]) = false := by
  intro plays earlier
  obtain ⟨-, -, hnewest, -⟩ := plays_until_over SoundDevice.switch true 1000000
  have hnone : ∀ u ∈ ([] : List Use), u.request = .update := List.forall_mem_nil _
  constructor
  · exact (hnewest earlier 119999999 [] 239999998 (by simp [Use.Ordered, earlier]) hnone).mpr
      (by decide)
  · have hover := hnewest earlier 119999999 [] 239999999 (by simp [Use.Ordered, earlier]) hnone
    exact Bool.eq_false_iff.mpr (mt hover.mp (by decide))

end Beeper

end Chip8.Console
