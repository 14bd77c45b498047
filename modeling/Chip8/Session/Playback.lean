import Chip8.Session.Basic

/-!
Playing a program frame by frame. A frame is ten cycles, fewer if the program
waits for a key, and then one tick of the timers. Playing stops at the first
fault, in the middle of its frame.

* `Playback.advance`: one frame;
* `Playback.play`: a number of frames, up to the first that fails;
* `play_add`: a run of frames is a run of its first part, followed by a run of the
  rest.
-/

namespace Chip8

/-- The most cycles in a frame. -/
abbrev cyclesPerFrame : Nat := 10

variable [RandomSource]

namespace Session

/-- A number of cycles, up to one that waits for a key or fails. -/
def cycles : Nat → Session → Except Fault Unit × Session
  | 0, s => (.ok (), s)
  | n + 1, s =>
    match s.step with
    | (.ok signal, s') => if signal = .awaiting then (.ok (), s') else cycles n s'
    | (.error f, s') => (.error f, s')

/-- One tick of the timers. -/
def tick (s : Session) : Session :=
  { s with machine := s.machine.tick }

/-- Whether the buzzer sounds. -/
def buzzing (s : Session) : Bool :=
  s.machine.timers.buzzing

end Session

/-- A session in the course of its frames. -/
structure Playback where
  session : Session
  /-- The number of frames that are complete. -/
  frames : Nat
  /-- Whether the buzzer sounded at the end of the last of them. -/
  buzzing : Bool

namespace Playback

/-- A session before its first frame. -/
def start (s : Session) : Playback :=
  ⟨s, 0, false⟩

/-- The end of a frame: the timers tick, and a change of the buzzer is noted. -/
def endFrame (p : Playback) (s : Session) : Playback :=
  let s := s.tick
  let on := s.buzzing
  ⟨if on ≠ p.buzzing then s.note (.buzzer p.frames on) else s, p.frames + 1, on⟩

/-- One frame. If it fails it is not complete, and the timers do not tick. -/
def advance (p : Playback) : Except Fault Unit × Playback :=
  match p.session.cycles cyclesPerFrame with
  | (.ok (), s) => (.ok (), p.endFrame s)
  | (.error f, s) => (.error f, { p with session := s })

/-- A number of frames, up to the first that fails. -/
def play : Nat → Playback → Except Fault Unit × Playback
  | 0, p => (.ok (), p)
  | n + 1, p =>
    match p.advance with
    | (.ok (), p') => play n p'
    | (.error f, p') => (.error f, p')

/-- A run of frames is a run of its first part, followed by a run of the rest
unless the first part failed. -/
theorem play_add (k n : Nat) (p : Playback) :
    play (k + n) p =
      match play k p with
      | (.ok (), p') => play n p'
      | (.error f, p') => (.error f, p') := by
  induction k generalizing p with
  | zero => simp [play]
  | succ k ih =>
    rw [show k + 1 + n = (k + n) + 1 by omega, play, play]
    rcases p.advance with ⟨_ | _, p'⟩
    · rfl
    · exact ih p'

end Playback

end Chip8
