import Chip8.Host.Random
import Chip8.Proofs.Frames

/-!
The notes about the buzzer.

Whether the buzzer sounds after a number of frames is a signal over time, which starts silent. At
the end of a frame a note is made if and only if the signal switches there. So the notes are the
switches of the signal, and the signal can be read off from the number of switches before.

* `switches`: the places where a signal switches, in their order;
* `mapIdx_switches`, `countP_switches`, `odd_length_switches`: they are alternately on and off, and
  their number tells the signal;
* `Session.log_cycles_debugs`, `debugs_endFrame`: what cycles and the end of a frame note;
* `tells_play`: what frames note;
* `buzzer_notes`: the notes about the buzzer are faithful.
-/

namespace Chip8

/-! ### Signals that switch -/

section switches

variable {on : Nat → Bool} {n f : Nat}

/-- The places below `n` where a signal switches. -/
def switches (on : Nat → Bool) (n : Nat) : List Nat :=
  (List.range n).filter fun f => on (f + 1) ≠ on f

lemma switches_succ (on : Nat → Bool) (n : Nat) :
    switches on (n + 1) = switches on n ++ if on (n + 1) ≠ on n then [n] else [] := by
  rw [switches, List.range_succ, List.filter_append, ← switches]
  congr 1
  by_cases hswitch : on (n + 1) = on n <;> simp [hswitch]

lemma lt_of_mem_switches (h : f ∈ switches on n) : f < n :=
  List.mem_range.1 (List.mem_filter.1 h).1

lemma pairwise_switches (on : Nat → Bool) (n : Nat) : (switches on n).Pairwise (· < ·) :=
  List.pairwise_lt_range.filter _

lemma odd_length_switches (h : on 0 = false) :
    (switches on n).length % 2 = 1 ↔ on n = true := by
  induction n with
  | zero => simp [switches, h]
  | succ n ih =>
    rw [switches_succ, List.length_append]
    by_cases hswitch : on (n + 1) = on n
    · simpa [hswitch] using ih
    · rw [if_pos hswitch, List.length_singleton, Bool.eq_not.2 hswitch, Bool.not_eq_true',
        ← Bool.not_eq_true, ← ih]
      omega

/-- The switches of a signal that starts off are alternately on and off. -/
lemma mapIdx_switches {α : Type} (h : on 0 = false) (g : Nat → Bool → α) :
    (switches on n).map (fun f => g f (on (f + 1))) =
      (switches on n).mapIdx fun k f => g f (k % 2 = 0) := by
  induction n with
  | zero => rfl
  | succ n ih =>
    by_cases hswitch : on (n + 1) = on n
    · rw [switches_succ, if_neg (not_not.2 hswitch), List.append_nil, ih]
    · have heven : on (n + 1) = decide ((switches on n).length % 2 = 0) := by
        rw [Bool.eq_not.2 hswitch, Bool.eq_iff_iff, Bool.not_eq_true', ← Bool.not_eq_true,
          ← odd_length_switches h, decide_eq_true_iff]
        omega
      rw [switches_succ, if_pos hswitch, List.map_append, ih, List.mapIdx_append,
        List.map_singleton, heven]
      simp

/-- The switches up to a place are those that the signal has made behind it. -/
lemma countP_switches (h : f < n) :
    (switches on n).countP (· ≤ f) = (switches on (f + 1)).length := by
  -- the places are all up to `f` at first, and none that comes later is
  induction h with
  | refl =>
    refine List.countP_eq_length.2 fun g hg => decide_eq_true ?_
    exact Nat.lt_succ_iff.1 (lt_of_mem_switches hg)
  | @step n hn ih =>
    have hlast : (if on (n + 1) ≠ on n then [n] else []).countP (· ≤ f) = 0 := by
      rw [List.countP_eq_zero]
      intro g hg
      split at hg
      · obtain rfl := List.mem_singleton.1 hg
        simpa using Nat.lt_of_succ_le hn
      · cases hg
    rw [switches_succ, List.countP_append, hlast, ih]
    rfl

end switches

/-! ### Notes at the level of debugging -/

/-- The notes at the level of debugging, in their order. -/
def Log.debugs (log : Log) : List Event :=
  log.events.toList.filter (·.level = .debug)

lemma Log.debugs_record {log : Log} {e : Event} (h : e.level ≠ .debug) :
    (log.record e).debugs = log.debugs :=
  filter_level_record h

/-- A note at the level of debugging is the last of them, if the threshold admits them. -/
lemma Log.debugs_record_of_debug {log : Log} {e : Event} (h : e.level = .debug) :
    (log.record e).debugs =
      log.debugs ++ if Level.debug.shownAt log.threshold then [e] else [] := by
  rw [record, h]
  split
  · simp [debugs, h]
  · exact (List.append_nil _).symm

section Source

variable [RandomSource]

lemma Session.log_step_debugs (s : Session) :
    s.step.2.log.debugs = s.log.debugs ∧ s.step.2.log.threshold = s.log.threshold := by
  refine ⟨?_, (Performs.step s).threshold⟩
  rw [log_step]
  cases hnoted : s.machine.noted? with
  | none => rfl
  | some e =>
    obtain ⟨i, -, rfl⟩ := Option.map_eq_some_iff.1 hnoted
    exact Log.debugs_record (by simp [Event.level])

/-- **The cycles of a frame note nothing for debugging**, whether they fail or not. -/
lemma Session.log_cycles_debugs (s : Session) (n : Nat) :
    (s.cycles n).2.log.debugs = s.log.debugs ∧
      (s.cycles n).2.log.threshold = s.log.threshold := by
  induction n generalizing s with
  | zero => exact ⟨rfl, rfl⟩
  | succ n ih =>
    have hfirst := s.log_step_debugs
    rw [cycles]
    rcases hstep : s.step with ⟨f | signal, s'⟩ <;> rw [hstep] at hfirst
    · exact hfirst
    · by_cases hsignal : signal = .awaiting
      · simpa only [if_pos hsignal] using hfirst
      · simp only [if_neg hsignal]
        exact ⟨(ih s').1.trans hfirst.1, (ih s').2.trans hfirst.2⟩

namespace Playback

variable {s : Session} {p : Playback} {n f : Nat}

/-! ### One frame -/

/-- **The end of a frame notes that the buzzer switches**, if it does, and nothing else. -/
lemma debugs_endFrame (p : Playback) (t : Session) :
    (p.endFrame t).session.log.debugs = t.log.debugs ++
      if Level.debug.shownAt t.log.threshold then
        if t.tick.buzzing ≠ p.buzzing then [.buzzer p.frames t.tick.buzzing] else []
      else [] := by
  rw [endFrame]
  by_cases hswitch : t.tick.buzzing ≠ p.buzzing
  · simp only [if_pos hswitch]
    exact Log.debugs_record_of_debug rfl
  · simp only [if_neg hswitch, ite_self, List.append_nil]
    rfl

/-! ### Many frames -/

lemma play_succ_of_error {q : Playback} {e : Fault} (h : play n q = (.error e, p)) :
    play (n + 1) q = (.error e, p) := by
  rw [play_add, h]

/-- The frame that comes next is its cycles and then, unless they fail, its end. -/
lemma play_succ_of_ok {q : Playback} (h : play n q = (.ok (), p)) :
    play (n + 1) q =
      match p.session.cycles cyclesPerFrame with
      | (.ok (), t) => (.ok (), p.endFrame t)
      | (.error e, t) => (.error e, { p with session := t }) := by
  rw [play_add, h]
  simp only [play, advance]
  rcases p.session.cycles cyclesPerFrame with ⟨e | _, t⟩ <;> rfl

/-- Whether the buzzer sounds once a number of frames is played. -/
def sounds (s : Session) (n : Nat) : Bool :=
  (play n (.start s)).2.buzzing

lemma sounds_zero (s : Session) : sounds s 0 = false := rfl

/-- The notes about the switches of the buzzer in a number of frames. -/
def buzzes (s : Session) (n : Nat) : List Event :=
  (switches (sounds s) n).map fun f => .buzzer f (sounds s (f + 1))

@[simp] lemma buzzes_zero (s : Session) : buzzes s 0 = [] := rfl

lemma buzzes_succ (s : Session) (n : Nat) :
    buzzes s (n + 1) = buzzes s n ++
      if sounds s (n + 1) ≠ sounds s n then [.buzzer n (sounds s (n + 1))] else [] := by
  rw [buzzes, switches_succ, List.map_append, ← buzzes]
  congr 1
  split <;> rfl

/-- The notes about the switches are alternately on and off. -/
lemma buzzes_eq_mapIdx (s : Session) (n : Nat) :
    buzzes s n = (switches (sounds s) n).mapIdx fun k f => .buzzer f (k % 2 = 0) :=
  mapIdx_switches (sounds_zero s) Event.buzzer

lemma message_buzzes (s : Session) (n : Nat) :
    (buzzes s n).map Event.message = (switches (sounds s) n).mapIdx fun k f =>
      "frame " ++ toString f ++ ": buzzer " ++ if k % 2 = 0 then "on" else "off" := by
  have hwords : (buzzes s n).map Event.message =
      (switches (sounds s) n).map fun f => (Event.buzzer f (sounds s (f + 1))).message := by
    rw [buzzes, List.map_map]
    rfl
  rw [hwords, mapIdx_switches (sounds_zero s) fun f on => (Event.buzzer f on).message]
  refine congrArg (List.mapIdx · _) (funext₂ fun k f => ?_)
  by_cases heven : k % 2 = 0
  · rw [if_pos heven, decide_eq_true heven]
    rfl
  · rw [if_neg heven, decide_eq_false heven]
    rfl

/-- What is left of `n` frames of a session: those before the first that fails are complete, and
the switches of the buzzer in them are noted for debugging, if the threshold admits it, and nothing
else is. -/
structure Tells (s : Session) (n : Nat) (left : Except Fault Unit × Playback) : Prop where
  complete : ∀ f ≤ left.2.frames,
    (play f (.start s)).1 = .ok () ∧ (play f (.start s)).2.frames = f
  buzzing : left.2.buzzing = sounds s left.2.frames
  threshold : left.2.session.log.threshold = s.log.threshold
  debugs : left.2.session.log.debugs = s.log.debugs ++
    if Level.debug.shownAt s.log.threshold then buzzes s left.2.frames else []
  ends : left.1 = .ok () ∧ left.2.frames = n ∨
    ∃ e, left.1 = .error e ∧ left.2.frames < n ∧
      ((play left.2.frames (.start s)).2.session.cycles cyclesPerFrame).1 = .error e

namespace Tells

lemma frames_eq (h : Tells s n (.ok (), p)) : p.frames = n := by
  obtain ⟨-, hframes⟩ | ⟨e, he, -⟩ := h.ends
  · exact hframes
  · cases he

lemma complete_frame {t : Session} (h : Tells s n (.ok (), p))
    (hcycles : p.session.cycles cyclesPerFrame = (.ok (), t))
    (hplay : play (n + 1) (.start s) = (.ok (), p.endFrame t)) :
    Tells s (n + 1) (.ok (), p.endFrame t) := by
  obtain ⟨hdebugs, hthreshold⟩ := p.session.log_cycles_debugs cyclesPerFrame
  rw [hcycles] at hdebugs hthreshold
  replace hthreshold := hthreshold.trans h.threshold
  have hframes : (p.endFrame t).frames = n + 1 := congrArg (· + 1) h.frames_eq
  have hbefore : p.buzzing = sounds s n := by rw [h.buzzing, h.frames_eq]
  have hafter : t.tick.buzzing = sounds s (n + 1) := by
    rw [sounds, hplay]
    rfl
  refine ⟨fun f hf => ?_, ?_, ?_, ?_, .inl ⟨rfl, hframes⟩⟩
  · obtain hf | rfl : f ≤ p.frames ∨ f = n + 1 := by
      have hf : f ≤ (p.endFrame t).frames := hf
      rw [hframes] at hf
      have := h.frames_eq
      omega
    · exact h.complete f hf
    · rw [hplay]
      exact ⟨rfl, hframes⟩
  · rw [hframes]
    exact hafter
  · exact (Session.Performs.endFrame p t).threshold.trans hthreshold
  · -- the cycles of a frame note nothing at this level, and its end notes a change of the sound
    rw [debugs_endFrame, hdebugs, hthreshold, hbefore, hafter, hframes, buzzes_succ, h.debugs,
      h.frames_eq]
    split <;> simp

lemma failing_frame {t : Session} {e : Fault} (h : Tells s n (.ok (), p))
    (hcycles : p.session.cycles cyclesPerFrame = (.error e, t))
    (hplay : play n (.start s) = (.ok (), p)) :
    Tells s (n + 1) (.error e, { p with session := t }) := by
  obtain ⟨hdebugs, hthreshold⟩ := p.session.log_cycles_debugs cyclesPerFrame
  rw [hcycles] at hdebugs hthreshold
  refine ⟨h.complete, h.buzzing, hthreshold.trans h.threshold, hdebugs.trans h.debugs,
    .inr ⟨e, rfl, Nat.lt_succ_of_le (Nat.le_of_eq h.frames_eq), ?_⟩⟩
  simp only [h.frames_eq]
  rw [hplay, hcycles]

lemma stopped {e : Fault} (h : Tells s n (.error e, p)) : Tells s (n + 1) (.error e, p) := by
  obtain ⟨hok, -⟩ | ⟨f, hf, hframes, hcycles⟩ := h.ends
  · cases hok
  · exact { h with ends := .inr ⟨f, hf, Nat.lt_succ_of_lt hframes, hcycles⟩ }

end Tells

/-- **What frames note for debugging** are the switches of the buzzer. -/
theorem tells_play (s : Session) (n : Nat) : Tells s n (play n (.start s)) := by
  induction n with
  | zero =>
    refine ⟨fun f hf => ?_, rfl, rfl, ?_, .inl ⟨rfl, rfl⟩⟩
    · obtain rfl : f = 0 := Nat.le_zero.1 hf
      exact ⟨rfl, rfl⟩
    · simp [play, start]
  | succ n ih =>
    rcases hplay : play n (.start s) with ⟨e | _, p⟩ <;> rw [hplay] at ih
    · -- a frame has failed already, and none is played after it
      rw [play_succ_of_error hplay]
      exact ih.stopped
    · have hnext := play_succ_of_ok hplay
      rcases hcycles : p.session.cycles cyclesPerFrame with ⟨e | _, t⟩ <;>
        rw [hcycles] at hnext <;> rw [hnext]
      · exact ih.failing_frame hcycles hplay
      · exact ih.complete_frame hcycles hnext

/-- The signal after a complete frame tells whether the sound timer runs after its tick. -/
lemma Tells.exists_tick {left : Except Fault Unit × Playback} (h : Tells s n left)
    (hf : f < left.2.frames) :
    ∃ t, (play f (.start s)).2.session.cycles cyclesPerFrame = (.ok (), t) ∧
      (play (f + 1) (.start s)).2.session.machine = t.machine.tick ∧
      (0 < t.machine.tick.timers.sound ↔ sounds s (f + 1) = true) := by
  obtain ⟨hok, -⟩ := h.complete f (Nat.le_of_lt hf)
  obtain ⟨hnext, -⟩ := h.complete (f + 1) hf
  rcases hplay : play f (.start s) with ⟨e | _, p⟩ <;> rw [hplay] at hok
  · cases hok
  · have hlast := play_succ_of_ok hplay
    rcases hcycles : p.session.cycles cyclesPerFrame with ⟨e | _, t⟩ <;> rw [hcycles] at hlast
    · rw [hlast] at hnext
      cases hnext
    · refine ⟨t, rfl, ?_, ?_⟩
      · rw [hlast]
        exact (Session.Performs.endFrame p t).machine
      · have hsignal : sounds s (f + 1) = (t.machine.tick.timers.sound != 0) := by
          rw [sounds, hlast]
          rfl
        rw [hsignal, bne_iff_ne, UInt8.pos_iff_ne_zero]

/-! ### The notes about the buzzer -/

/-- **The notes about the buzzer are faithful.** Any number of frames of a session, whatever its
machine, so whatever program is loaded, key is held down and seed is chosen: what they note for
debugging is that the buzzer switches, on and off alternately and on first, in frames that are
strictly increasing. The number of notes up to a complete frame is odd if and only if the sound
timer runs after the tick of this frame. A frame that fails adds no note. -/
theorem buzzer_notes (s : Session) (n : Nat) :
    let result := (play n (.start s)).1
    let played := (play n (.start s)).2
    ∃ (frames : List Nat) (notes : List Event),
      played.session.log.debugs =
        s.log.debugs ++ (if Level.debug.shownAt s.log.threshold then notes else []) ∧
      notes = frames.mapIdx (fun k f => .buzzer f (k % 2 = 0)) ∧
      notes.map Event.message = frames.mapIdx (fun k f =>
        "frame " ++ toString f ++ ": buzzer " ++ if k % 2 = 0 then "on" else "off") ∧
      frames.Pairwise (· < ·) ∧
      (∀ f ∈ frames, f < played.frames) ∧
      (∀ f < played.frames, ∃ t,
        (play f (.start s)).2.session.cycles cyclesPerFrame = (.ok (), t) ∧
        (play (f + 1) (.start s)).2.session.machine = t.machine.tick ∧
        (0 < t.machine.tick.timers.sound ↔ frames.countP (· ≤ f) % 2 = 1)) ∧
      (result = .ok () → played.frames = n) ∧
      ∀ e, result = .error e → played.frames < n ∧
        (play played.frames (.start s)).1 = .ok () ∧
        ((play played.frames (.start s)).2.session.cycles cyclesPerFrame).1 = .error e ∧
        played.session.log.debugs = (play played.frames (.start s)).2.session.log.debugs := by
  intro result played
  have htells : Tells s n (result, played) := tells_play s n
  refine ⟨switches (sounds s) played.frames, buzzes s played.frames, htells.debugs,
    buzzes_eq_mapIdx s _, message_buzzes s _, pairwise_switches _ _,
    fun f => lt_of_mem_switches, fun f hf => ?_, fun hok => ?_, fun e he => ?_⟩
  · obtain ⟨t, hcycles, hmachine, hsound⟩ := htells.exists_tick hf
    refine ⟨t, hcycles, hmachine, ?_⟩
    -- the sound of a frame is on if it was switched an odd number of times, as it is off at first
    rw [hsound, countP_switches hf, odd_length_switches (sounds_zero s)]
  · obtain ⟨-, hframes⟩ | ⟨e, he, -⟩ := htells.ends
    · exact hframes
    · rw [hok] at he
      cases he
  · obtain ⟨hok, -⟩ | ⟨e', he', hframes, hcycles⟩ := htells.ends
    · rw [he] at hok
      cases hok
    · obtain rfl : e = e' := by simpa [he] using he'
      -- the frame that fails notes nothing, so the notes are those of the frames before it
      obtain ⟨hbefore, hsame⟩ := htells.complete played.frames (Nat.le_refl _)
      refine ⟨hframes, hbefore, hcycles, ?_⟩
      rw [htells.debugs, (tells_play s played.frames).debugs, hsame]

end Playback

end Source

namespace Playback

/-- A program that sets the sound timer to two and waits for a key. -/
def beep : List UInt8 :=
  [0x60, 0x02, 0xF0, 0x18, 0xF1, 0x0A]

/-- A program that sets the sound timer to two, counts to eight, stops the sound timer in the next
frame and comes to a word that is no instruction. -/
def chirp : List UInt8 :=
  [0x60, 0x02, 0xF0, 0x18] ++ (List.replicate 8 [0x71, 0x01]).flatten ++ [0xF2, 0x18, 0xFF, 0xFF]

/-- The first program is noted twice, and the timer runs after the first frame but not after the
second. The second frame of the other program fails, so it is not noted that the buzzer is off. -/
theorem buzzer_notes_beep :
    (play 2 (.start (sitting beep none))).2.session.log.debugs =
        [.buzzer 0 true, .buzzer 1 false] ∧
      0 < (play 1 (.start (sitting beep none))).2.session.machine.timers.sound ∧
      ¬ 0 < (play 2 (.start (sitting beep none))).2.session.machine.timers.sound ∧
      (play 2 (.start (sitting chirp none))).1 = .error (.unknownWord 0xFFFF) ∧
      (play 1 (.start (sitting chirp none))).2.session.log.debugs = [.buzzer 0 true] ∧
      (play 2 (.start (sitting chirp none))).2.session.log.debugs = [.buzzer 0 true] := by
  obtain ⟨hframes, hdebugs⟩ : (play 2 (.start (sitting beep none))).2.frames = 2 ∧
      (play 2 (.start (sitting beep none))).2.session.log.debugs =
        [.buzzer 0 true, .buzzer 1 false] := by decide +kernel
  obtain ⟨hfail, hleft, hnoted⟩ :
      (play 2 (.start (sitting chirp none))).1 = .error (.unknownWord 0xFFFF) ∧
      (play 2 (.start (sitting chirp none))).2.frames = 1 ∧
      (play 2 (.start (sitting chirp none))).2.session.log.debugs = [.buzzer 0 true] := by
    decide +kernel
  obtain ⟨frames, notes, hnotes, halternate, -, -, -, hsound, -⟩ :=
    buzzer_notes (sitting beep none) 2
  obtain ⟨-, -, -, -, -, -, -, -, -, hstops⟩ := buzzer_notes (sitting chirp none) 2
  -- the frames of the notes are the first two
  obtain rfl : frames = [0, 1] := by
    have heq : frames.mapIdx (fun k f => Event.buzzer f (k % 2 = 0)) =
        [.buzzer 0 true, .buzzer 1 false] := by
      rw [← halternate, ← hdebugs]
      exact hnotes.symm
    rcases frames with _ | ⟨f, _ | ⟨g, _ | ⟨h, rest⟩⟩⟩
    · cases heq
    · cases heq
    · simpa using heq
    · simp at heq
  obtain ⟨t, -, hfirst, hon⟩ := hsound 0 (by rw [hframes]; decide)
  obtain ⟨t', -, hsecond, hoff⟩ := hsound 1 (by rw [hframes]; decide)
  obtain ⟨-, -, -, hsame⟩ := hstops _ hfail
  rw [hleft] at hsame
  refine ⟨hdebugs, ?_, ?_, hfail, hsame.symm.trans hnoted, hnoted⟩
  · rw [hfirst]
    exact hon.2 (by decide)
  · rw [hsecond]
    exact fun hruns => absurd (hoff.1 hruns) (by decide)

end Playback

end Chip8
