import Chip8.Host.Random
import Chip8.Proofs.Guarded.Listing
import Chip8.Proofs.Guarded.Machine

/-!
The machine never breaks down.

A host that checks every access and every sum, and gives up where a check fails, never gives up:
whatever it is asked to do with a machine in whatever state, it comes to the result that the
total functions of the machine give. The only numbers that could be too large for it are those
that it makes of an address, a coordinate, a pointer or a count from outside.
-/

namespace Chip8.Guarded

/-- **The machine never breaks down.** On a host that checks every access to an array, every
sum, every operand and every case that cannot occur, histories, accesses to memory and return
stack, sprites and listings all have their results, as long as the host can count to the end of
what is asked for. -/
theorem never_breaks_down [RandomSource] (machine : Machine) (memory : Memory) (stack : ReturnStack)
    (screen : Screen) (program : List UInt8) :
    (∀ history : List Operation, (∀ o ∈ history, o.Fits) →
      operateAll machine history = some (machine.answers history, machine.afterAll history)) ∧
    (∀ r : Fin registerCount, register machine r = some (machine.register r)) ∧
    (∀ a length, a + length < hostLimit →
      check a length = some (Memory.check a length) ∧
      slice memory a length = some (memory.slice a length) ∧
      readArray memory a length = some
        (if Memory.InRange a length then .ok (.ofFn fun i => memory.byte (a + i))
         else .error (.outOfMemory a length))) ∧
    (∀ a data, a + data.length < hostLimit →
      writeSlice memory a data = some (memory.writeSlice a data)) ∧
    (∀ a b, a + 1 < hostLimit →
      read memory a = some (memory.read a) ∧ write memory a b = some (memory.write a b)) ∧
    (∀ a w, a + 2 < hostLimit →
      readWord memory a = some (memory.readWord a) ∧
      writeWord memory a w = some (memory.writeWord a w)) ∧
    top stack = some stack.top? ∧
    (∀ a, push stack a = some (stack.push a)) ∧
    pop stack = some stack.pop ∧
    (∀ pointer words, (∀ p ∈ pointer, p + 1 < hostLimit) →
      restore stack pointer words = some (stack.restore pointer words)) ∧
    (∀ x y, pixel screen x y = some (screen.pixel x y)) ∧
    (∀ x y rows, (∀ c < spriteWidth, ∀ r < rows.length, x + c < hostLimit ∧ y + r < hostLimit) →
      draw screen x y rows = some (screen.draw x y rows)) ∧
    picture screen = some screen.picture ∧
    (∀ count, programStart + count < hostLimit → dump memory count = some (memory.dump count)) ∧
    (programStart + program.length < hostLimit →
      assembly program = some (.ok (Chip8.assembly program))) ∧
    (∀ word, decode word = some (Instruction.decode word)) ∧
    (∀ i, text i = some (.ok i.text)) := by
  refine ⟨fun _ h => operateAll_eq_some h, register_eq_some machine,
    fun _ _ h => ⟨check_eq_some h, slice_eq_some h, readArray_eq_some h⟩,
    fun _ _ h => writeSlice_eq_some h, fun _ _ h => ⟨read_eq_some h, write_eq_some h⟩,
    fun _ _ h => ⟨readWord_eq_some h, writeWord_eq_some h⟩, top_eq_some, fun _ => push_eq_some,
    pop_eq_some, fun _ _ h => restore_eq_some h, pixel_eq_some screen,
    fun _ _ _ h => draw_eq_some h, picture_eq_some screen, fun _ h => dump_eq_some h,
    assembly_eq_some, decode_eq_some, text_eq_some⟩

/-- Debuggers ask for accesses whose ends are the largest numbers of the host, and a sprite is
drawn from the largest coordinates on. -/
theorem never_breaks_down_edge :
    let debugged : List Operation :=
      [.edit (.setPc 0xFFFF), .edit (.setRegister 15 0xFF), .edit (.push 0x0300),
       .edit (.writeSlice (hostLimit - 3) [0x12, 0x00]), .edit (.write (hostLimit - 2) 0x60),
       .edit (.writeWord (hostLimit - 3) 0x6001),
       .edit (.restore (some (hostLimit - 2)) [0x0400]), .act .step, .edit .pop]
    let machine := Machine.blank (some 7) (.ofSeed 7)
    operateAll machine debugged = some (machine.answers debugged, machine.afterAll debugged) ∧
    slice .blank (hostLimit - 17) 16 = some (.error (.outOfMemory (hostLimit - 17) 16)) ∧
    draw .blank (hostLimit - 8) (hostLimit - 1) [0xFF] = some (Screen.blank.draw 56 31 [0xFF]) ∧
    dump .blank (hostLimit - 513) = some (Memory.blank.dump programCapacity) ∧
    assembly [0x00, 0xE0, 0xFF] = some (.ok (Chip8.assembly [0x00, 0xE0, 0xFF])) := by
  intro debugged machine
  obtain ⟨hhistory, -, haccess, -, -, -, -, -, -, -, -, hdraw, -, hdump, hassembly, -⟩ :=
    never_breaks_down machine .blank .blank .blank [0x00, 0xE0, 0xFF]
  have hfits : ∀ o ∈ debugged, o.Fits := by
    simp [debugged, Operation.Fits, Edit.Fits]
    decide
  have hslice : Memory.blank.slice (hostLimit - 17) 16 =
      .error (.outOfMemory (hostLimit - 17) 16) :=
    Memory.slice_eq_error_iff.2 ⟨by decide, rfl⟩
  have hcorner : ∀ c < spriteWidth, ∀ r < [(0xFF : UInt8)].length,
      hostLimit - 8 + c < hostLimit ∧ hostLimit - 1 + r < hostLimit := by decide
  refine ⟨hhistory debugged hfits, ?_, ?_, ?_, hassembly (by decide)⟩
  · rw [(haccess (hostLimit - 17) 16 (by decide)).2.1, hslice]
  · rw [hdraw _ _ _ hcorner]
    rfl
  · rw [hdump (hostLimit - 513) (by decide)]
    rfl

end Chip8.Guarded
